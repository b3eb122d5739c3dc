import BlockMarkup.Json
import BlockMarkup.Text.Decimal

/-!
# Writing JSON

There are two layouts. The compact one has no white space. The pretty one puts
every item and member on a line of its own, two spaces deeper than the bracket
that encloses it; an empty array or object stays on one line.

In strings the quote, the backslash and the control characters below the space
are escaped, five of the latter by a letter and the rest by four hexadecimal
digits. Everything else is written as it is.
-/

namespace BlockMarkup.Json

/-- The hexadecimal digit of a number below sixteen. -/
def hexDigit (n : Nat) : Char :=
  Nat.digitChar n

/-- A character as it stands in a string. -/
def escape (c : Char) : Text :=
  if c = '"' then ['\\', '"']
  else if c = '\\' then ['\\', '\\']
  else if c = '\x08' then ['\\', 'b']
  else if c = '\x0c' then ['\\', 'f']
  else if c = '\n' then ['\\', 'n']
  else if c = '\r' then ['\\', 'r']
  else if c = '\t' then ['\\', 't']
  else if c.toNat < 0x20 then
    ['\\', 'u', '0', '0', hexDigit (c.toNat / 16), hexDigit (c.toNat % 16)]
  else [c]

/-- A text in quotes. -/
def quote (text : Text) : Text :=
  '"' :: text.flatMap escape ++ ['"']

/-- An integer in decimal. -/
def integerText : Int → Text
  | .ofNat n => Decimal.digits n
  | .negSucc n => '-' :: Decimal.digits (n + 1)

/-- A line break and the indentation of a depth. -/
def newline (depth : Nat) : Text :=
  '\n' :: List.replicate (2 * depth) ' '

mutual

/-- The compact layout of a value. -/
def compact : Json → Text
  | .null => "null".toList
  | .bool true => "true".toList
  | .bool false => "false".toList
  | .integer value => integerText value
  | .decimal significand exponent => integerText significand ++ 'e' :: integerText exponent
  | .string value => quote value
  | .array [] => ['[', ']']
  | .array (first :: rest) => '[' :: compact first ++ compactItems rest ++ [']']
  | .object [] => ['{', '}']
  | .object ((name, value) :: rest) =>
    '{' :: quote name ++ ':' :: compact value ++ compactMembers rest ++ ['}']

/-- Items after the first, each with a comma before it. -/
def compactItems : List Json → Text
  | [] => []
  | item :: rest => ',' :: compact item ++ compactItems rest

/-- Members after the first, each with a comma before it. -/
def compactMembers : List (Text × Json) → Text
  | [] => []
  | (name, value) :: rest => ',' :: quote name ++ ':' :: compact value ++ compactMembers rest

end

mutual

/-- The pretty layout of a value at a depth. -/
def prettyAt (depth : Nat) : Json → Text
  | .array (first :: rest) =>
    '[' :: newline (depth + 1) ++ prettyAt (depth + 1) first ++ prettyItems (depth + 1) rest ++
      newline depth ++ [']']
  | .object ((name, value) :: rest) =>
    '{' :: newline (depth + 1) ++ quote name ++ ':' :: ' ' :: prettyAt (depth + 1) value ++
      prettyMembers (depth + 1) rest ++ newline depth ++ ['}']
  | value => compact value

/-- Items after the first, each on a line of its own. -/
def prettyItems (depth : Nat) : List Json → Text
  | [] => []
  | item :: rest => ',' :: newline depth ++ prettyAt depth item ++ prettyItems depth rest

/-- Members after the first, each on a line of its own. -/
def prettyMembers (depth : Nat) : List (Text × Json) → Text
  | [] => []
  | (name, value) :: rest =>
    ',' :: newline depth ++ quote name ++ ':' :: ' ' :: prettyAt depth value ++
      prettyMembers depth rest

end

/-- The pretty layout of a value. -/
def pretty (value : Json) : Text :=
  prettyAt 0 value

end BlockMarkup.Json
