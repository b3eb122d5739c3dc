import BlockMarkup.Json
import BlockMarkup.Text.Decimal

/-!
# Taking values apart

A record is written as an object, and members that it does not know are
ignored. It may also be read from an array that has the parts in their order
and nothing else. A choice between names is read from the name, or from an
object whose only member has that name and no value.
-/

namespace BlockMarkup.Json

/-- The parts of a record with these names. -/
def parts? (names : List Text) : Json → Option (List Json)
  | .object members => names.mapM fun name => members.lookup name
  | .array items => if items.length = names.length then some items else none
  | _ => none

/-- A truth value. -/
def bool? : Json → Option Bool
  | .bool value => some value
  | _ => none

/-- A number that is a machine word. -/
def word? : Json → Option Nat
  | .integer (.ofNat n) => if n < wordLimit then some n else none
  | _ => none

/-- A text. -/
def text? : Json → Option Text
  | .string value => some value
  | _ => none

/-- The items of an array, each taken apart in the same way. -/
def list? {α : Type} (item? : Json → Option α) : Json → Option (List α)
  | .array items => items.mapM item?
  | _ => none

/-- The name that a choice is written as. -/
def choice? : Json → Option Text
  | .string name => some name
  | .object [(name, .null)] => some name
  | _ => none

end BlockMarkup.Json
