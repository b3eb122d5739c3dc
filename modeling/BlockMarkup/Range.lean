import BlockMarkup.Position

/-!
# Ranges

A range runs from a start position to a stop position. As a set of positions it
is half-open: it has its start and not its stop. A cursor that stands right
after the last character still counts as inside, which is what
`containsInclusive` says.

The record itself does not demand that the start comes first. `between` and
`onLine` do, and refuse anything else.
-/

namespace BlockMarkup

/-- From a start position to a stop position. -/
structure Range where
  start : Position
  stop : Position
deriving DecidableEq, Inhabited

namespace Range

/-- The range between two positions, which must be in order. -/
def between (start stop : Position) : Checked Range :=
  if start ≤ stop then .ok ⟨start, stop⟩ else .error (.reversed start stop)

/-- The range between two columns of a line, which must be in order. -/
def onLine (line start stop : Nat) : Checked Range :=
  between ⟨line, start⟩ ⟨line, stop⟩

/-- The range of a number of bytes on a line. It is in order by construction. -/
def ofLength (line start length : Nat) : Range :=
  ⟨⟨line, start⟩, ⟨line, start + length⟩⟩

/-- The range that has nothing in it and stands at the position. -/
def emptyAt (p : Position) : Range := ⟨p, p⟩

/-- Whether start and stop are the same position. -/
def isEmpty (r : Range) : Bool := r.start == r.stop

/-- Whether start and stop are on the same line. -/
def isSingleLine (r : Range) : Bool := r.start.line == r.stop.line

/-- Whether the position is in the range, whose stop is not. -/
def contains (r : Range) (p : Position) : Bool := r.start ≤ p && p < r.stop

/-- Whether the position is in the range or at its stop. -/
def containsInclusive (r : Range) (p : Position) : Bool := r.start ≤ p && p ≤ r.stop

/-- Whether the other range lies between start and stop. -/
def containsRange (r other : Range) : Bool := r.start ≤ other.start && other.stop ≤ r.stop

/-- Whether the two ranges share a position. -/
def overlaps (r other : Range) : Bool := r.start < other.stop && other.start < r.stop

/-- The place in the containing document of a range in a text that begins at
    `start`. -/
def toOuter (r : Range) (start : Position) : Checked Range := do
  let first ← r.start.toOuter start
  let last ← r.stop.toOuter start
  between first last

/-- Start and stop, with two dots between. -/
def render (r : Range) : Text :=
  r.start.render ++ '.' :: '.' :: r.stop.render

/-- A number of bytes on a line is a range that would not be refused. -/
theorem onLine_ofLength (line start length : Nat) :
    onLine line start (start + length) = .ok (ofLength line start length) := by
  have ordered : (⟨line, start⟩ : Position) ≤ ⟨line, start + length⟩ :=
    Position.le_iff.mpr (Or.inr ⟨rfl, Nat.le_add_right _ _⟩)
  simp [onLine, between, ofLength, ordered]

end Range

end BlockMarkup
