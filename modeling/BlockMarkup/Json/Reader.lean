import BlockMarkup.Json
import BlockMarkup.Json.Double

/-!
# Reading JSON

The reader takes strict JSON and nothing after it: no comments, no trailing
commas, no byte order mark. Of members with one name the last counts. Three
limits hold beyond the grammar. Arrays and objects nest at most `nestingLimit`
deep, a `\u` escape stands for a character or half of a surrogate pair that is
completed at once, and a number that is no machine word must not be too large for
double precision.

Every function takes characters off the front of the text and returns the rest.
Items and members are read with a budget of one round per character, which is
enough because each takes at least one character.
-/

namespace BlockMarkup.Json

/-- How deep arrays and objects may nest. -/
def nestingLimit : Nat := 127

/-- Whether a character may stand between tokens. -/
def isSpace (c : Char) : Bool :=
  c == ' ' || c == '\n' || c == '\t' || c == '\r'

/-- A text without its leading white space. -/
def skipSpace (text : Text) : Text :=
  text.dropWhile isSpace

/-- The rest after an expected text. -/
def expect? : Text → Text → Option Text
  | [], text => some text
  | _ :: _, [] => none
  | c :: expected, d :: rest => if c = d then expect? expected rest else none

/-- The value of a hexadecimal digit. -/
def hexValue? (c : Char) : Option Nat :=
  if '0' ≤ c ∧ c ≤ '9' then some (c.toNat - '0'.toNat)
  else if 'a' ≤ c ∧ c ≤ 'f' then some (c.toNat - 'a'.toNat + 10)
  else if 'A' ≤ c ∧ c ≤ 'F' then some (c.toNat - 'A'.toNat + 10)
  else none

/-- The value of four hexadecimal digits. -/
def hexWord? (a b c d : Char) : Option Nat := do
  return ((← hexValue? a) * 16 + (← hexValue? b)) * 256 + ((← hexValue? c) * 16 + (← hexValue? d))

/-- Whether a number is the first half of a surrogate pair. -/
def isLeading (n : Nat) : Bool := 0xD800 ≤ n && n < 0xDC00

/-- Whether a number is the second half of a surrogate pair. -/
def isTrailing (n : Nat) : Bool := 0xDC00 ≤ n && n < 0xE000

/-- The character that the two halves of a surrogate pair stand for. -/
def pairedCharacter (leading trailing : Nat) : Char :=
  Char.ofNat (0x10000 + (leading - 0xD800) * 0x400 + (trailing - 0xDC00))

/-- The character that a letter after a backslash stands for. -/
def simpleEscape? (c : Char) : Option Char :=
  match c with
  | '"' => some '"'
  | '\\' => some '\\'
  | '/' => some '/'
  | 'b' => some '\x08'
  | 'f' => some '\x0c'
  | 'n' => some '\n'
  | 'r' => some '\r'
  | 't' => some '\t'
  | _ => none

/-- Reads the rest of a string whose opening quote has been taken. -/
def readString : Text → Option (Text × Text)
  | [] => none
  | '"' :: rest => some ([], rest)
  | '\\' :: 'u' :: a :: b :: c :: d :: rest => do
    let first ← hexWord? a b c d
    if isLeading first then
      match rest with
      | '\\' :: 'u' :: e :: f :: g :: h :: more =>
        let second ← hexWord? e f g h
        if isTrailing second then
          let (text, after) ← readString more
          return (pairedCharacter first second :: text, after)
        else
          none
      | _ => none
    else if isTrailing first then
      none
    else
      let (text, after) ← readString rest
      return (Char.ofNat first :: text, after)
  | '\\' :: c :: rest => do
    let escaped ← simpleEscape? c
    let (text, after) ← readString rest
    return (escaped :: text, after)
  | c :: rest =>
    if c.toNat < 0x20 || c == '\\' then none
    else do
      let (text, after) ← readString rest
      return (c :: text, after)

/-- The value of a run of digits. -/
def digitsValue (digits : Text) : Nat :=
  Nat.ofDigitChars 10 digits 0

/-- The value of a number from its sign, its digits before and after the point
    and its exponent. A zero with a sign is no integer. -/
def numberValue? (negative : Bool) (whole fraction : Text) (exponent : Option Int) : Option Json :=
  let significand := digitsValue (whole ++ fraction)
  let signed : Int := if negative then -significand else significand
  let isInteger := fraction.isEmpty && exponent.isNone &&
    if negative then 0 < significand && significand ≤ Nat.pow 2 63 else significand < wordLimit
  let scale := exponent.getD 0 - fraction.length
  if isInteger then some (.integer signed)
  else if (Double.Scaled.ofDigits whole fraction (exponent.getD 0)).isTooLarge then none
  else some (.decimal signed scale)

/-- Takes a non-empty run of digits. -/
def readDigits? (text : Text) : Option (Text × Text) :=
  match text.takeWhile Char.isDigit with
  | [] => none
  | digits => some (digits, text.dropWhile Char.isDigit)

/-- Takes the digits before the point, which begin with a zero only if that is
    all. -/
def readWhole? : Text → Option (Text × Text)
  | '0' :: rest => if (rest.head?.map Char.isDigit).getD false then none else some (['0'], rest)
  | text => readDigits? text

/-- Takes the point and the digits after it, if there is a point. -/
def readFraction? : Text → Option (Text × Text)
  | '.' :: rest => readDigits? rest
  | text => some ([], text)

/-- Takes the exponent, if there is one. -/
def readExponent? : Text → Option (Option Int × Text)
  | c :: rest =>
    if c = 'e' ∨ c = 'E' then
      match rest with
      | '-' :: more => (readDigits? more).map fun (digits, after) =>
          (some (-(digitsValue digits : Int)), after)
      | '+' :: more => (readDigits? more).map fun (digits, after) =>
          (some (digitsValue digits : Int), after)
      | more => (readDigits? more).map fun (digits, after) =>
          (some (digitsValue digits : Int), after)
    else
      some (none, c :: rest)
  | [] => some (none, [])

/-- Reads a number. -/
def readNumber? (text : Text) : Option (Json × Text) := do
  let (negative, unsigned) := match text with
    | '-' :: rest => (true, rest)
    | _ => (false, text)
  let (whole, afterWhole) ← readWhole? unsigned
  let (fraction, afterFraction) ← readFraction? afterWhole
  let (exponent, rest) ← readExponent? afterFraction
  return (← numberValue? negative whole fraction exponent, rest)

/-- Reads the items of an array that is not empty, up to its closing bracket. -/
def readItems (readItem : Text → Option (Json × Text)) :
    Nat → Text → Option (List Json × Text)
  | 0, _ => none
  | budget + 1, text => do
    let (item, rest) ← readItem (skipSpace text)
    match skipSpace rest with
    | ',' :: more =>
      let (items, after) ← readItems readItem budget more
      return (item :: items, after)
    | ']' :: after => return ([item], after)
    | _ => none

/-- Reads the members of an object that is not empty, up to its closing
    bracket, and adds them to those before. -/
def readMembers (readItem : Text → Option (Json × Text)) :
    Nat → List (Text × Json) → Text → Option (List (Text × Json) × Text)
  | 0, _, _ => none
  | budget + 1, members, text =>
    match skipSpace text with
    | '"' :: quoted => do
      let (name, afterName) ← readString quoted
      let afterColon ← expect? [':'] (skipSpace afterName)
      let (value, rest) ← readItem (skipSpace afterColon)
      let extended := setMember name value members
      match skipSpace rest with
      | ',' :: more => readMembers readItem budget extended more
      | '}' :: after => return (extended, after)
      | _ => none
    | _ => none

/-- Reads a value whose arrays and objects nest at most `depth` deep. -/
def readValue : Nat → Text → Option (Json × Text)
  | _, 'n' :: rest => (expect? "ull".toList rest).map fun after => (.null, after)
  | _, 't' :: rest => (expect? "rue".toList rest).map fun after => (.bool true, after)
  | _, 'f' :: rest => (expect? "alse".toList rest).map fun after => (.bool false, after)
  | _, '"' :: rest => (readString rest).map fun (text, after) => (.string text, after)
  | 0, '[' :: _ => none
  | 0, '{' :: _ => none
  | depth + 1, '[' :: rest =>
    match skipSpace rest with
    | ']' :: after => some (.array [], after)
    | items => (readItems (readValue depth) items.length items).map fun (items, after) =>
        (.array items, after)
  | depth + 1, '{' :: rest =>
    match skipSpace rest with
    | '}' :: after => some (.object [], after)
    | members => (readMembers (readValue depth) members.length [] members).map
        fun (members, after) => (.object members, after)
  | _, text => readNumber? text

/-- The value that a text is written for. -/
def read? (text : Text) : Option Json := do
  let (value, rest) ← readValue nestingLimit (skipSpace text)
  if (skipSpace rest).isEmpty then return value else none

end BlockMarkup.Json
