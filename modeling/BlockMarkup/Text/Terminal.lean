import BlockMarkup.Text.Measure

/-!
# Text for a terminal

A terminal takes an escape character and what follows it as a command. Emphasis is
written that way. Where there is no terminal, commands are left out of a text, and
so are the control characters that are no white space.

A command that has begun goes on until its last character. It may be broken off by
the next escape character and by the two characters that cancel. Tabs and line
breaks in a short command are no part of it. They are shown, with the plain text
after them up to the next control character, and only then does the command go
on.
-/

namespace BlockMarkup.Terminal

/-- The character that begins a command. -/
def escape : Char := '\x1b'

/-- Whether a character ends a command before its time. -/
def isCancel (c : Char) : Bool := c == '\x18' || c == '\x1a'

/-- Whether a character belongs to ASCII. -/
def isAscii (c : Char) : Bool := c.toNat < 0x80

/-- Whether a character is white space that is not printed itself. -/
def isLayout (c : Char) : Bool := c == '\t' || c == '\n' || c == '\x0c' || c == '\r'

/-- Whether a character belongs to plain text. -/
def isPlain (c : Char) : Bool :=
  !isAscii c || isLayout c || ' ' ≤ c && c ≤ '~'

/-- What part of a command has been read. -/
inductive Part where
  /-- None: this is text. -/
  | text
  /-- The escape character. -/
  | opening
  /-- Marks after the escape character. -/
  | marks
  /-- The beginning of a control sequence, as for emphasis. -/
  | control
  /-- The beginning of a device string. -/
  | device
  /-- The parameters of a device string. -/
  | deviceParameters
  /-- The marks of a device string. -/
  | deviceMarks
  /-- The body of a device string or of a string without a meaning. -/
  | body
  /-- A command to the operating system, such as a title. -/
  | system
deriving DecidableEq

namespace Part

/-- Whether tabs and line breaks are shown within this part. -/
def isShort : Part → Bool
  | .text | .opening | .marks | .control => true
  | .device | .deviceParameters | .deviceMarks | .body | .system => false

/-- The part that a character after the escape character begins. -/
def opened (c : Char) : Part :=
  if c = '[' then .control
  else if c = ']' then .system
  else if c = 'P' then .device
  else if c = 'X' ∨ c = '^' ∨ c = '_' then .body
  else if ' ' ≤ c ∧ c < '0' then .marks
  else if '0' ≤ c ∧ c ≤ '~' then .text
  else .opening

/-- Whether a character holds the byte that closes a string, in its UTF-8 form. -/
def closesBody (c : Char) : Bool :=
  (String.utf8EncodeChar c).contains 0x9c

/-- The part after a character that neither begins nor cancels a command. -/
def continued (part : Part) (c : Char) : Part :=
  match part with
  | .text => .text
  | .opening => opened c
  | .marks => if '0' ≤ c ∧ c ≤ '~' then .text else .marks
  | .control => if '@' ≤ c ∧ c ≤ '~' then .text else .control
  | .device =>
    if ' ' ≤ c ∧ c < '0' then .deviceMarks
    else if '0' ≤ c ∧ c < '@' then .deviceParameters
    else if '@' ≤ c ∧ c ≤ '~' then .body
    else .device
  | .deviceParameters =>
    if ' ' ≤ c ∧ c < '0' then .deviceMarks
    else if '<' ≤ c ∧ c ≤ '~' then .body
    else .deviceParameters
  | .deviceMarks => if '0' ≤ c ∧ c ≤ '~' then .body else .deviceMarks
  | .body => if closesBody c then .text else .body
  | .system => if c = '\x07' then .text else .system

/-- The part after a character. -/
def next (part : Part) (c : Char) : Part :=
  if c = escape then .opening else if isCancel c then .text else part.continued c

/-- Whether a character is shown within this part. -/
def shows (part : Part) (c : Char) : Bool :=
  if part = .text then isPlain c else part.isShort && isLayout c

end Part

/-- What is shown of a text without a terminal. The flag says whether plain text is
    being shown although a command has not ended. -/
def shownFrom : Bool → Part → Text → Text
  | _, _, [] => []
  | true, part, c :: rest =>
    if isPlain c then c :: shownFrom true (if isAscii c then part else .text) rest
    else shownFrom false (part.next c) rest
  | false, part, c :: rest =>
    if part.shows c then c :: shownFrom true (part.next c) rest
    else shownFrom false (part.next c) rest

/-- What is shown of a text where there is no terminal. -/
def shown (text : Text) : Text :=
  shownFrom false .text text

/-- A text between commands that begin and end emphasis. -/
def emphasised (text : Text) : Text :=
  "\x1b[1m".toList ++ text ++ "\x1b[0m".toList

/-- An emphasised text in quotes. -/
def quoted (text : Text) : String :=
  "'" ++ String.ofList (emphasised text) ++ "'"

end BlockMarkup.Terminal
