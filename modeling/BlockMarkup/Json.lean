import BlockMarkup.Text.Measure

/-!
# JSON values

Numbers come in two sorts. An integer is written without fraction and exponent
and fits in a signed or unsigned machine word. Every other number is a decimal:
its value is `significand * 10 ^ exponent`.

An object lists its members. Names are unique in every object that the reader
produces; looking a name up finds its first member.
-/

namespace BlockMarkup

/-- A JSON value. -/
inductive Json where
  | null
  | bool (value : Bool)
  | integer (value : Int)
  | decimal (significand exponent : Int)
  | string (value : Text)
  | array (items : List Json)
  | object (members : List (Text × Json))

namespace Json

/-- A natural number as a value. -/
def ofNat (n : Nat) : Json := .integer n

/-- The member of that name, if the value is an object that has it. -/
def member? (name : Text) : Json → Option Json
  | .object members => members.lookup name
  | _ => none

/-- Sets a member, in place of any earlier one of that name. -/
def setMember (name : Text) (value : Json) : List (Text × Json) → List (Text × Json)
  | [] => [(name, value)]
  | (other, old) :: rest =>
    if other = name then (name, value) :: rest else (other, old) :: setMember name value rest

end Json

end BlockMarkup
