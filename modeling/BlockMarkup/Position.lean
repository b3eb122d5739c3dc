import BlockMarkup.Text.Decimal

/-!
# Positions

A position is a line and a byte column in that line, both counted from zero.
Positions are ordered by line and then by column.

A text that begins somewhere inside a document has positions of its own. Only
its first line shares a line with what stands before it, so `toOuter` moves the
column on that line alone and the line number everywhere else. `toInner` is the
way back. Columns and line numbers are machine words: a move that leaves that
range is a fault.
-/

namespace BlockMarkup

/-- A line and a byte column, counted from zero. -/
structure Position where
  line : Nat
  character : Nat
deriving DecidableEq, Inhabited

/-- A refused computation: a sum that is no machine word, or a range whose
    start comes after its end. -/
inductive Fault where
  | overflow
  | reversed (start stop : Position)
deriving DecidableEq

/-- A computation that may be refused. -/
abbrev Checked := Except Fault

/-- The sum of two machine words, if it is one. -/
def addWord (a b : Nat) : Checked Nat :=
  if a + b < wordLimit then .ok (a + b) else .error .overflow

namespace Position

/-- The start of a document. -/
def origin : Position := ⟨0, 0⟩

/-- A position is before another if its line is, or its character in the same line. -/
instance : LT Position where
  lt a b := a.line < b.line ∨ (a.line = b.line ∧ a.character < b.character)

/-- The same order with the position itself included. -/
instance : LE Position where
  le a b := a.line < b.line ∨ (a.line = b.line ∧ a.character ≤ b.character)

/-- The strict order is decided by the numbers. -/
instance (a b : Position) : Decidable (a < b) :=
  inferInstanceAs (Decidable (a.line < b.line ∨ (a.line = b.line ∧ a.character < b.character)))

/-- So is the order that includes the position itself. -/
instance (a b : Position) : Decidable (a ≤ b) :=
  inferInstanceAs (Decidable (a.line < b.line ∨ (a.line = b.line ∧ a.character ≤ b.character)))

/-- Lines are compared first. -/
theorem lt_iff {a b : Position} :
    a < b ↔ a.line < b.line ∨ (a.line = b.line ∧ a.character < b.character) := Iff.rfl

/-- In the same line characters are compared. -/
theorem le_iff {a b : Position} :
    a ≤ b ↔ a.line < b.line ∨ (a.line = b.line ∧ a.character ≤ b.character) := Iff.rfl

/-- How one position compares with another. -/
def order (a b : Position) : Ordering :=
  (compare a.line b.line).then (compare a.character b.character)

/-- Line and column, with a colon between. -/
def render (p : Position) : Text :=
  Decimal.digits p.line ++ ':' :: Decimal.digits p.character

/-- The place in the containing document of a position in a text that begins at
    `start`. -/
def toOuter (p start : Position) : Checked Position :=
  if p.line = 0 then do
    return ⟨start.line, ← addWord start.character p.character⟩
  else do
    return ⟨← addWord start.line p.line, p.character⟩

/-- The place in a text that begins at `start` of a position in the containing
    document; there is none for a position before the start. -/
def toInner (p start : Position) : Option Position :=
  if p < start then none
  else if p.line = start.line then some ⟨0, p.character - start.character⟩
  else some ⟨p.line - start.line, p.character⟩

end Position

namespace Fault

/-- The wording of a fault. -/
def message : Fault → String
  | .overflow => "attempt to add with overflow"
  | .reversed start stop =>
    "range start " ++ String.ofList start.render ++ " is after end " ++ String.ofList stop.render

end Fault

end BlockMarkup
