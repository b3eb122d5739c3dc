import BlockMarkup.Range

/-!
# Positions in ranges

Positions are ordered by line and then by column, and of any two one is not
after the other. Whether a range has a position, or another range in it, is a
matter of this order alone.
-/

namespace BlockMarkup

/-- A position is not behind itself. -/
theorem Position.le_refl (p : Position) : p ≤ p :=
  le_iff.mpr (.inr ⟨rfl, Nat.le_refl _⟩)

/-- The order of positions goes on from one to the next. -/
theorem Position.le_trans {p q r : Position} (first : p ≤ q) (second : q ≤ r) : p ≤ r := by
  rw [le_iff] at first second ⊢
  omega

/-- Any two positions are in order one way or the other. -/
theorem Position.le_of_not_le {p q : Position} (later : ¬ p ≤ q) : q ≤ p := by
  rw [le_iff] at later ⊢
  omega

/-- What is not before a position is the same or behind it. -/
theorem Position.not_lt {p q : Position} : ¬ p < q ↔ q ≤ p := by
  rw [lt_iff, le_iff]
  omega

namespace Range

/-- A range has the positions between its ends, both of them included. -/
theorem containsInclusive_iff {range : Range} {p : Position} :
    range.containsInclusive p = true ↔ range.start ≤ p ∧ p ≤ range.stop := by
  simp [containsInclusive]

/-- A range has another one in it if the ends of that are between its own. -/
theorem containsRange_iff {range other : Range} :
    range.containsRange other = true ↔ range.start ≤ other.start ∧ other.stop ≤ range.stop := by
  simp [containsRange]

/-- What is in a range is in every range around it. -/
theorem containsInclusive_of_containsRange {range other : Range} {p : Position}
    (within : range.containsRange other = true) (inside : other.containsInclusive p = true) :
    range.containsInclusive p = true := by
  rw [containsRange_iff] at within
  rw [containsInclusive_iff] at inside ⊢
  exact ⟨Position.le_trans within.1 inside.1, Position.le_trans inside.2 within.2⟩

/-- Whether the other range lies between start and stop and is another one. -/
def StrictlyContains (range other : Range) : Prop :=
  range.containsRange other = true ∧ range ≠ other

/-- Whether a range is strictly around another can be decided by their ends. -/
instance (range other : Range) : Decidable (range.StrictlyContains other) :=
  inferInstanceAs (Decidable (_ ∧ _))

end Range

/-- Of members that exclude one another at most one has a property. What is found
    at a position is told that way, as members that stand apart have no position
    in common. -/
theorem eq_of_pairwise_excluding {α : Type} (holds : α → Prop) {apart : α → α → Prop}
    {members : List α} (pairwise : members.Pairwise apart)
    (excluding : ∀ first second, apart first second → holds first → ¬ holds second)
    {one other : α} (member : one ∈ members) (otherMember : other ∈ members)
    (oneHolds : holds one) (otherHolds : holds other) : one = other := by
  induction pairwise with
  | nil => cases member
  | cons before _ hypothesis =>
    rcases List.mem_cons.mp member with rfl | later
    · rcases List.mem_cons.mp otherMember with rfl | otherLater
      · rfl
      · exact absurd otherHolds (excluding _ _ (before other otherLater) oneHolds)
    · rcases List.mem_cons.mp otherMember with rfl | otherLater
      · exact absurd oneHolds (excluding _ _ (before one later) otherHolds)
      · exact hypothesis later otherLater

end BlockMarkup
