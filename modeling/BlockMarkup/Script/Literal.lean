import BlockMarkup.Script.Gap

/-!
# Words, strings and numbers

Words have every character that is neither white space, a control character
nor a punctuation mark of ASCII, and do not begin with a digit.

A string ends at its quote. A line break in it must be escaped, but the last
line of its text may end before the quote: what stands between them is white
space, and text may only follow after a comment.

A number in decimal that begins with two zeros, or with a zero and a separator,
has neither a fraction nor an exponent.
-/

namespace BlockMarkup.Script

/-- The punctuation marks of ASCII, those aside that may stand in a word. -/
def punctuation : List Char :=
  ":;`\"'@#.,|^&<=>+-*/\\%?!~()[]\x7b\x7d".toList

/-- Whether a character may stand in a word. -/
def isWordPart (c : Char) : Bool :=
  c.isAlphanum || (0x20 ≤ c.toNat && !isScriptSpace c && !punctuation.contains c)

/-- Whether a character is a hexadecimal digit. -/
def isHexDigit (c : Char) : Bool :=
  c.isDigit || ('a' ≤ c && c ≤ 'f') || ('A' ≤ c && c ≤ 'F')

/-- The length of the rest of an escape after `\u`: four hexadecimal digits, or any
    number of them in curly brackets. -/
def unicodeRest? : Text → Option Nat
  | '{' :: rest =>
    match rest.span isHexDigit with
    | (digit :: digits, '}' :: _) => some ((digit :: digits).length + 2)
    | _ => none
  | a :: b :: c :: d :: _ => if [a, b, c, d].all isHexDigit then some 4 else none
  | _ => none

/-- The length of the escape that begins the text of a word, if one does. -/
def wordEscape? : Text → Option Nat
  | '\\' :: 'u' :: rest => (unicodeRest? rest).map (· + 2)
  | _ => none

/-- Takes the characters of a word, which may be escaped. The first `skip` characters
    belong to an escape. -/
def takeWordFrom : Text → Nat → Text × Text
  | [], _ => ([], [])
  | c :: rest, skip + 1 =>
    let (word, after) := takeWordFrom rest skip
    (c :: word, after)
  | c :: rest, 0 =>
    match if isWordPart c then some 1 else wordEscape? (c :: rest) with
    | some length =>
      let (word, after) := takeWordFrom rest (length - 1)
      (c :: word, after)
    | none => ([], c :: rest)

/-- Takes the word that begins the text, if one does. -/
def takeWord (text : Text) : Text × Text :=
  takeWordFrom text 0

/-- Whether a character ends a line that a string may go beyond. -/
def isStringBreak (c : Char) : Bool :=
  c == '\n' || c == '\u2028' || c == '\u2029'

/-- The length of the escape in a string or template that begins the text with its
    backslash. A line break is escaped together with the carriage return or question
    mark before it. The letters `x` and `u` need hexadecimal digits. -/
def escape? : Text → Option Nat
  | '\\' :: 'x' :: a :: b :: _ => if isHexDigit a && isHexDigit b then some 4 else none
  | '\\' :: 'x' :: _ => none
  | '\\' :: 'u' :: rest => (unicodeRest? rest).map (· + 2)
  | '\\' :: c :: rest =>
    if (c == '\r' || c == '?') && (rest.head?.map isStringBreak).getD false then some 3 else some 2
  | _ => none

/-- Where in a string one stands: in its text, or between its last line and the
    closing quote. -/
inductive StringPlace where
  | line
  | trail

/-- What is taken of a string: its characters, its escapes by their distance in
    bytes from the start of what is taken, whether a backslash in it begins no
    escape, and the text after it. -/
structure TakenString where
  body : Text
  escapes : List Nat
  isFlawed : Bool
  rest : Text

namespace TakenString

/-- Puts a character in front of what is taken. -/
def after (front : Char) (taken : TakenString) : TakenString :=
  { taken with body := front :: taken.body }

/-- Puts the backslash of an escape in front of what is taken. -/
def afterEscape (offset : Nat) (taken : TakenString) : TakenString :=
  { taken.after '\\' with escapes := offset :: taken.escapes }

/-- Puts a backslash that begins no escape in front of what is taken. -/
def afterFlaw (taken : TakenString) : TakenString :=
  { taken.after '\\' with isFlawed := true }

end TakenString

/-- Takes the characters of a string up to and including its closing quote, from
    a byte offset on. The first `skip` characters belong to an escape or a
    comment. -/
def takeString (quote : Char) : StringPlace → Text → Nat → Nat → Option TakenString
  | _, [], _, _ => none
  | place, c :: rest, skip + 1, offset =>
    (takeString quote place rest skip (offset + c.utf8Size)).map (·.after c)
  | place, c :: rest, 0, offset =>
    let next := offset + c.utf8Size
    if c = quote then some ⟨[c], [], false, rest⟩
    else
      match place with
      | .line =>
        if c = '\\' then
          match escape? (c :: rest) with
          | some length =>
            (takeString quote .line rest (length - 1) next).map (·.afterEscape offset)
          | none => (takeString quote .line rest 0 next).map (·.afterFlaw)
        else
          let place := if c = '\n' ∨ c = '\r' then .trail else .line
          (takeString quote place rest 0 next).map (·.after c)
      | .trail =>
        if isScriptSpace c then (takeString quote .trail rest 0 next).map (·.after c)
        else
          match comment? (c :: rest) with
          | some comment =>
            (takeString quote .line rest (comment.length - 1) next).map (·.after c)
          | none => none

/-- Takes a run of digits, two of which may have a separator between them. -/
def takeDigitsAfter (isDigit : Char → Bool) : Bool → Text → Text × Text
  | _, [] => ([], [])
  | afterDigit, c :: rest =>
    let isTaken := isDigit c || (afterDigit && c == '_' && (rest.head?.map isDigit).getD false)
    if isTaken then
      let (digits, after) := takeDigitsAfter isDigit (isDigit c) rest
      (c :: digits, after)
    else
      ([], c :: rest)

/-- Takes a run of decimal digits. -/
def takeDigits (text : Text) : Text × Text :=
  takeDigitsAfter Char.isDigit false text

/-- Takes an exponent, if one follows. -/
def takeExponent (text : Text) : Text × Text :=
  match text with
  | e :: rest =>
    let (sign, unsigned) := match rest with
      | '+' :: more => (['+'], more)
      | '-' :: more => (['-'], more)
      | _ => ([], rest)
    match takeDigits unsigned with
    | ([], _) => ([], text)
    | (digits, after) => if e == 'e' || e == 'E' then (e :: sign ++ digits, after) else ([], text)
  | [] => ([], [])

/-- Takes the mark of a big integer, if it follows. -/
def takeBigMark : Text → Text × Text
  | 'n' :: rest => (['n'], rest)
  | text => ([], text)

/-- Whether the digits before a point are those of a plain integer. -/
def isPlainInteger : Text → Bool
  | '0' :: digit :: _ => digit != '0' && digit != '_'
  | _ => true

/-- The digits of the base that a letter after a zero stands for. -/
def baseDigits? (c : Char) : Option (Char → Bool) :=
  if c == 'x' || c == 'X' then some isHexDigit
  else if c == 'o' || c == 'O' then some fun digit => '0' ≤ digit && digit ≤ '7'
  else if c == 'b' || c == 'B' then some fun digit => digit == '0' || digit == '1'
  else none

/-- Takes a number in decimal. Only a whole one may be a big integer. -/
def takeDecimal (text : Text) : Text × Text :=
  let (whole, afterWhole) := takeDigits text
  let (fraction, afterFraction) := match isPlainInteger whole, afterWhole with
    | true, '.' :: rest =>
      let (digits, after) := takeDigits rest
      ('.' :: digits, after)
    | _, _ => ([], afterWhole)
  let (exponent, afterExponent) :=
    if isPlainInteger whole then takeExponent afterFraction else ([], afterFraction)
  let (mark, rest) :=
    if fraction.isEmpty && exponent.isEmpty then takeBigMark afterExponent else ([], afterExponent)
  (whole ++ fraction ++ exponent ++ mark, rest)

/-- Takes a number, which begins the text. -/
def takeNumber (text : Text) : Text × Text :=
  match text with
  | '0' :: base :: rest =>
    match (baseDigits? base).map fun isDigit => takeDigitsAfter isDigit false rest with
    | some (digit :: digits, after) =>
      let (mark, more) := takeBigMark after
      ('0' :: base :: digit :: digits ++ mark, more)
    | _ => takeDecimal text
  | _ => takeDecimal text

end BlockMarkup.Script
