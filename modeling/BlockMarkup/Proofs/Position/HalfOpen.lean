import Mathlib.Order.MinMax
import Mathlib.Order.Interval.Set.LinearOrder
import BlockMarkup.Proofs.Position.Containment

/-!
# Ranges as half-open intervals

Positions are linearly ordered, and the positions in a range are an interval that
has its start and not its stop. Whether a range that is not empty lies in another
one is a matter of these sets: `containsRange` compares the ends and says the
same as the positions do.

`overlaps` compares the ends as well, and for two ranges that are not empty this
too says whether they have a position in common. An empty range has no positions
at all. Yet its ends compare like those of any other range, so `overlaps` takes
it to share something with a range that it stands inside of. It does not if the
empty range stands at either end of the other one.
-/

namespace BlockMarkup

namespace Position

/-- Positions are ordered by line and then by column. -/
instance : LinearOrder Position where
  le_refl := le_refl
  le_trans _ _ _ := le_trans
  le_antisymm p q first second := by
    obtain ⟨line, character⟩ := p
    obtain ⟨line', character'⟩ := q
    simp only [le_iff, mk.injEq] at first second ⊢
    omega
  le_total p q := by
    simp only [le_iff]
    omega
  lt_iff_le_not_ge p q := by
    simp only [lt_iff, le_iff]
    omega
  toDecidableLE := inferInstance

end Position

namespace Range

variable {r other : Range}

/-- A range has the positions from its start up to its end, which it leaves out. -/
theorem contains_iff {p : Position} : r.contains p = true ↔ p ∈ Set.Ico r.start r.stop := by
  simp [contains]

/-- Two ranges overlap if each starts before the other ends. -/
theorem overlaps_iff : r.overlaps other = true ↔ r.start < other.stop ∧ other.start < r.stop := by
  simp [overlaps]

/-- A range is empty if it ends where it starts. -/
theorem isEmpty_iff : r.isEmpty = true ↔ r.start = r.stop := by
  simp [isEmpty]

/-- A range in order that is not empty ends behind its start. -/
theorem lt_of_isEmpty_eq_false (ordered : r.start ≤ r.stop) (filled : r.isEmpty = false) :
    r.start < r.stop := by
  rcases lt_or_eq_of_le ordered with before | same
  · exact before
  · rw [isEmpty_iff.mpr same] at filled
    cases filled

/-- Whether two ranges have a position in common. -/
def Meets (r other : Range) : Prop :=
  ∃ p, r.contains p = true ∧ other.contains p = true

/-- Whether every position of the other range is in the range. -/
def Covers (r other : Range) : Prop :=
  ∀ p, other.contains p = true → r.contains p = true

/-- Whether a range is empty and stands inside another one, at neither of its
    ends. -/
structure EmptyInside (r other : Range) : Prop where
  empty : r.isEmpty = true
  behindStart : other.start < r.start
  beforeStop : r.stop < other.stop

/-! ## Positions in common -/

/-- What two ranges have in common begins at the later start and ends at the
    earlier stop. -/
theorem meets_iff : r.Meets other ↔ max r.start other.start < min r.stop other.stop := by
  simp only [Meets, contains_iff, ← Set.mem_inter_iff, Set.Ico_inter_Ico]
  exact Set.nonempty_Ico

/-- If there is a position in common, one of the starts is. -/
theorem Meets.exists_start (meets : r.Meets other) :
    ∃ p ∈ [r.start, other.start], r.contains p = true ∧ other.contains p = true := by
  have before := meets_iff.mp meets
  obtain ⟨first, second⟩ := lt_min_iff.mp before
  refine ⟨max r.start other.start, ?_, ?_, ?_⟩
  · rcases max_choice r.start other.start with same | same <;> simp [same]
  · exact contains_iff.mpr ⟨le_max_left _ _, first⟩
  · exact contains_iff.mpr ⟨le_max_right _ _, second⟩

/-- It does not matter which of the ranges comes first. -/
theorem Meets.symm (meets : r.Meets other) : other.Meets r := by
  obtain ⟨p, inside, inOther⟩ := meets
  exact ⟨p, inOther, inside⟩

/-- An empty range has no position, so it shares none. -/
theorem not_meets_of_isEmpty (empty : r.isEmpty = true) : ¬ r.Meets other := by
  rintro ⟨p, inside, _⟩
  obtain ⟨reached, before⟩ := contains_iff.mp inside
  rw [← isEmpty_iff.mp empty] at before
  exact absurd reached (not_le_of_gt before)

/-- Nor does the order of the two ranges matter to the comparison of their ends. -/
theorem overlaps_comm (r other : Range) : r.overlaps other = other.overlaps r := by
  simp only [overlaps, Bool.and_comm]

/-- A position in common is between the start of either range and the stop of the
    other one. -/
theorem overlaps_of_meets (meets : r.Meets other) : r.overlaps other = true := by
  have before := meets_iff.mp meets
  simp only [max_lt_iff, lt_min_iff] at before
  obtain ⟨⟨_, second⟩, first, _⟩ := before
  exact overlaps_iff.mpr ⟨first, second⟩

/-- The ends of two ranges that are not empty compare as they do if there is a
    position in common. -/
theorem overlaps_iff_meets (filled : r.start < r.stop) (otherFilled : other.start < other.stop) :
    r.overlaps other = true ↔ r.Meets other := by
  constructor
  · intro overlapping
    obtain ⟨first, second⟩ := overlaps_iff.mp overlapping
    exact meets_iff.mpr (max_lt (lt_min filled first) (lt_min second otherFilled))
  · exact overlaps_of_meets

/-- An empty range is taken to overlap what it stands inside of. -/
theorem overlaps_iff_emptyInside (empty : r.isEmpty = true) :
    r.overlaps other = true ↔ r.EmptyInside other := by
  have same := isEmpty_iff.mp empty
  rw [overlaps_iff]
  constructor
  · rintro ⟨before, behind⟩
    exact ⟨empty, same ▸ behind, same ▸ before⟩
  · intro inside
    exact ⟨same ▸ inside.beforeStop, same ▸ inside.behindStart⟩

/-- Two ranges overlap exactly if they have a position in common or one of them
    is empty and inside the other. -/
theorem overlaps_iff_meets_or (ordered : r.start ≤ r.stop)
    (otherOrdered : other.start ≤ other.stop) :
    r.overlaps other = true ↔ r.Meets other ∨ r.EmptyInside other ∨ other.EmptyInside r := by
  constructor
  · intro overlapping
    cases empty : r.isEmpty with
    | true => exact Or.inr (Or.inl ((overlaps_iff_emptyInside empty).mp overlapping))
    | false =>
      have filled := lt_of_isEmpty_eq_false ordered empty
      cases otherEmpty : other.isEmpty with
      | true =>
        rw [overlaps_comm] at overlapping
        exact Or.inr (Or.inr ((overlaps_iff_emptyInside otherEmpty).mp overlapping))
      | false =>
        have otherFilled := lt_of_isEmpty_eq_false otherOrdered otherEmpty
        exact Or.inl ((overlaps_iff_meets filled otherFilled).mp overlapping)
  · rintro (meets | inside | inside)
    · exact overlaps_of_meets meets
    · exact (overlaps_iff_emptyInside inside.empty).mpr inside
    · rw [overlaps_comm]
      exact (overlaps_iff_emptyInside inside.empty).mpr inside

/-! ## Positions of another range -/

/-- A range that is not empty lies in another one exactly if its positions do. -/
theorem containsRange_iff_covers (filled : other.start < other.stop) :
    r.containsRange other = true ↔ r.Covers other := by
  simp only [containsRange_iff, Covers, contains_iff]
  exact (Set.Ico_subset_Ico_iff filled).symm

/-- If it does not, its start is outside or it goes on at the stop. -/
theorem exists_end_of_not_covers (filled : other.start < other.stop)
    (uncovered : ¬ r.Covers other) :
    ∃ p ∈ [other.start, r.stop], other.contains p = true ∧ r.contains p = false := by
  rw [← containsRange_iff_covers filled, containsRange_iff, not_and_or, not_le, not_le] at uncovered
  simp only [← Bool.not_eq_true, contains_iff, Set.mem_Ico]
  by_cases inside : r.start ≤ other.start ∧ other.start < r.stop
  · have reached := uncovered.resolve_left (not_lt_of_ge inside.1)
    exact ⟨r.stop, by simp, ⟨le_of_lt inside.2, reached⟩, fun within => lt_irrefl _ within.2⟩
  · exact ⟨other.start, by simp, ⟨le_refl _, filled⟩, inside⟩

/-- What the two predicates say about positions, for ranges in order. The ends
    that are compared are enough to tell, so it does not matter how far positions
    count. -/
theorem overlaps_containsRange_exact (r other : Range) (ordered : r.start ≤ r.stop)
    (otherOrdered : other.start ≤ other.stop) :
    (r.overlaps other = true ↔ r.Meets other ∨ r.EmptyInside other ∨ other.EmptyInside r) ∧
    (r.isEmpty = true ∨ other.isEmpty = true → ¬ r.Meets other) ∧
    (r.Meets other →
      ∃ p ∈ [r.start, other.start], r.contains p = true ∧ other.contains p = true) ∧
    r.overlaps other = other.overlaps r ∧
    (other.isEmpty = false →
      (r.containsRange other = true ↔ r.Covers other) ∧
      (¬ r.Covers other →
        ∃ p ∈ [other.start, r.stop], other.contains p = true ∧ r.contains p = false)) := by
  refine ⟨overlaps_iff_meets_or ordered otherOrdered, ?_, Meets.exists_start, overlaps_comm r other,
    ?_⟩
  · rintro (empty | empty) meets
    · exact not_meets_of_isEmpty empty meets
    · exact not_meets_of_isEmpty empty meets.symm
  · intro nonempty
    have filled := lt_of_isEmpty_eq_false otherOrdered nonempty
    exact ⟨containsRange_iff_covers filled, exists_end_of_not_covers filled⟩

/-- Two ranges across lines that meet in one position. -/
theorem overlaps_containsRange_exact_oneShared :
    (Range.mk ⟨0, 7⟩ ⟨2, 3⟩).start ≤ (Range.mk ⟨0, 7⟩ ⟨2, 3⟩).stop ∧
      (Range.mk ⟨2, 2⟩ ⟨4, 0⟩).start ≤ (Range.mk ⟨2, 2⟩ ⟨4, 0⟩).stop ∧
      (Range.mk ⟨0, 7⟩ ⟨2, 3⟩).Meets ⟨⟨2, 2⟩, ⟨4, 0⟩⟩ ∧
      (Range.mk ⟨2, 2⟩ ⟨4, 0⟩).isEmpty = false ∧
      ¬ (Range.mk ⟨0, 7⟩ ⟨2, 3⟩).Covers ⟨⟨2, 2⟩, ⟨4, 0⟩⟩ := by
  have ordered : (Range.mk ⟨0, 7⟩ ⟨2, 3⟩).start ≤ (Range.mk ⟨0, 7⟩ ⟨2, 3⟩).stop := by decide
  have otherOrdered : (Range.mk ⟨2, 2⟩ ⟨4, 0⟩).start ≤ (Range.mk ⟨2, 2⟩ ⟨4, 0⟩).stop := by decide
  have nonempty : (Range.mk ⟨2, 2⟩ ⟨4, 0⟩).isEmpty = false := by decide
  obtain ⟨overlapping, _, _, _, covering⟩ :=
    overlaps_containsRange_exact ⟨⟨0, 7⟩, ⟨2, 3⟩⟩ ⟨⟨2, 2⟩, ⟨4, 0⟩⟩ ordered otherOrdered
  refine ⟨ordered, otherOrdered, ?_, nonempty, ?_⟩
  · rcases overlapping.mp (by decide) with meets | inside | inside
    · exact meets
    · cases inside.empty
    · cases inside.empty
  · rw [← (covering nonempty).1]
    decide

/-- An empty range in the middle of another one has no position in common with
    it, and is taken to overlap it. -/
theorem overlaps_without_common_position :
    (emptyAt ⟨0, 1⟩).start ≤ (emptyAt ⟨0, 1⟩).stop ∧
      (ofLength 0 0 2).start ≤ (ofLength 0 0 2).stop ∧
      (emptyAt ⟨0, 1⟩).isEmpty = true ∧
      (emptyAt ⟨0, 1⟩).overlaps (ofLength 0 0 2) = true ∧
      ¬ ∃ p, (emptyAt ⟨0, 1⟩).contains p = true ∧ (ofLength 0 0 2).contains p = true :=
  ⟨by decide, by decide, by decide, by decide, not_meets_of_isEmpty (by decide)⟩

end Range

end BlockMarkup
