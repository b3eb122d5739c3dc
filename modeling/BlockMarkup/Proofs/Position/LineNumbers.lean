import BlockMarkup.Proofs.Checked
import BlockMarkup.Proofs.Position.Placement

/-!
# Renumbering the lines of positions

A text that is put after other lines, or taken out from among them, keeps its
columns and changes its line numbers. `mapLines` applies a function to the line
numbers and leaves the columns alone.
-/

namespace BlockMarkup

namespace Position

/-- The position with another line number. -/
def mapLines (f : Nat → Nat) (p : Position) : Position := ⟨f p.line, p.character⟩

/-- Only the line of a position is replaced. -/
@[simp]
theorem mapLines_mk (f : Nat → Nat) (line character : Nat) :
    mapLines f ⟨line, character⟩ = ⟨f line, character⟩ := rfl

/-- A position gets its line back from an inverse. -/
theorem mapLines_cancel {f g : Nat → Nat} (inverse : ∀ line, g (f line) = line) (p : Position) :
    (p.mapLines f).mapLines g = p := by
  simp [mapLines, inverse]

/-- A text that begins further down has its positions further down. -/
theorem placedAt_mapLines (count : Nat) (p start : Position) :
    p.placedAt (start.mapLines (· + count)) = (p.placedAt start).mapLines (· + count) := by
  by_cases first : p.line = 0
  · simp [placedAt, mapLines, first]
  · simp only [placedAt, mapLines, first, if_false, mk.injEq, and_true]
    omega

end Position

namespace Range

/-- The range with other line numbers. -/
def mapLines (f : Nat → Nat) (r : Range) : Range := ⟨r.start.mapLines f, r.stop.mapLines f⟩

/-- Both ends of a range have their lines replaced. -/
@[simp]
theorem mapLines_mk (f : Nat → Nat) (start stop : Position) :
    mapLines f ⟨start, stop⟩ = ⟨start.mapLines f, stop.mapLines f⟩ := rfl

/-- A range gets its lines back from an inverse. -/
theorem mapLines_cancel {f g : Nat → Nat} (inverse : ∀ line, g (f line) = line) (r : Range) :
    (r.mapLines f).mapLines g = r := by
  simp [mapLines, Position.mapLines_cancel inverse]

/-- A piece of a line is moved to the other line. -/
@[simp]
theorem mapLines_ofLength (f : Nat → Nat) (line start length : Nat) :
    (ofLength line start length).mapLines f = ofLength (f line) start length := rfl

end Range

end BlockMarkup
