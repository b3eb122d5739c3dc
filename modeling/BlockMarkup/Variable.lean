import BlockMarkup.Range

/-!
# Variable references

A reference is an occurrence of a variable's name in the content of a block: it
reads or writes the variable, and the scope the variable belongs to may be
known.
-/

namespace BlockMarkup

/-- Whether a reference reads or writes its variable. -/
inductive Access where
  | read
  | write
deriving DecidableEq

/-- The scope a variable belongs to. -/
inductive Scope where
  | environment
  | runtime
  | global
  | folder
  | collection
  | request
  | processEnv
  | unknown
deriving DecidableEq

/-- An occurrence of a variable's name. -/
structure VariableReference where
  name : Text
  nameRange : Range
  access : Access
  scope : Scope
deriving DecidableEq

namespace VariableReference

/-- Whether the variable is written. -/
def isWrite (reference : VariableReference) : Bool :=
  reference.access == .write

/-- The first reference with the position in its name or right after it. -/
def findAt (references : List VariableReference) (p : Position) : Option VariableReference :=
  references.find? fun reference => reference.nameRange.containsInclusive p

end VariableReference

end BlockMarkup
