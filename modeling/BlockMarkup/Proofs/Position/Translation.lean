import BlockMarkup.Proofs.Checked
import BlockMarkup.Proofs.Position.Containment
import BlockMarkup.Proofs.Position.Placement

/-!
# Moving between a text and the text that contains it

`toOuter` is `placedAt` as far as machine words go. It is refused for one sum
only: that of the columns on the first line, and that of the line numbers on
every other. `toInner` knows no refusal, and it undoes `placedAt` whatever the
size of the numbers. So the positions that can be moved to a start are in
one-to-one correspondence with the positions that are not before it, and the
order is the same on both sides.

Moves compose. Two moves one after the other go at least as far as one move to
the place of the inner start: a position on a later line does not have the
column of that start, so it may be moved although the start itself may not.
-/

namespace BlockMarkup

namespace Position

variable {p q start outer moved : Position}

/-- Whether line and column are machine words. -/
def InWords (p : Position) : Prop :=
  p.line < wordLimit ∧ p.character < wordLimit

/-- Whether both numbers of a position are words can be decided. -/
instance (p : Position) : Decidable p.InWords :=
  inferInstanceAs (Decidable (_ ∧ _))

/-- Whether a move to a start leaves the machine words: on the first line in the
    column, on every other in the line number. -/
def Overflows (p start : Position) : Prop :=
  (p.line = 0 ∧ wordLimit ≤ start.character + p.character) ∨
    (0 < p.line ∧ wordLimit ≤ start.line + p.line)

/-- Whether a sum overflows can be decided by computing it. -/
instance (p start : Position) : Decidable (p.Overflows start) :=
  inferInstanceAs (Decidable (_ ∨ _))

/-- On the first line the characters are added, so only their sum can overflow. -/
theorem overflows_of_first (first : p.line = 0) :
    p.Overflows start ↔ wordLimit ≤ start.character + p.character := by
  unfold Overflows
  omega

/-- On a later line only the sum of the lines can. -/
theorem overflows_of_later (later : p.line ≠ 0) :
    p.Overflows start ↔ wordLimit ≤ start.line + p.line := by
  unfold Overflows
  omega

/-- A position on the first line is moved along the line of the start. -/
theorem placedAt_of_first (first : p.line = 0) :
    p.placedAt start = ⟨start.line, start.character + p.character⟩ :=
  if_pos first

/-- A position on a later line keeps its character. -/
theorem placedAt_of_later (later : p.line ≠ 0) :
    p.placedAt start = ⟨start.line + p.line, p.character⟩ :=
  if_neg later

/-! ## Outwards -/

/-- A move is refused if it leaves the machine words, and goes to its place
    otherwise. -/
theorem toOuter_eq (p start : Position) :
    p.toOuter start =
      if p.Overflows start then .error .overflow else .ok (p.placedAt start) := by
  unfold toOuter addWord
  by_cases first : p.line = 0
  · simp only [if_pos first, overflows_of_first first, placedAt_of_first first]
    by_cases fits : start.character + p.character < wordLimit
    · rw [if_pos fits, if_neg (Nat.not_le_of_lt fits)]
      rfl
    · rw [if_neg fits, if_pos (Nat.le_of_not_lt fits)]
      rfl
  · simp only [if_neg first, overflows_of_later first, placedAt_of_later first]
    by_cases fits : start.line + p.line < wordLimit
    · rw [if_pos fits, if_neg (Nat.not_le_of_lt fits)]
      rfl
    · rw [if_neg fits, if_pos (Nat.le_of_not_lt fits)]
      rfl

/-- A position is accepted if no sum overflows, and is then placed at the start. -/
theorem toOuter_eq_ok_iff :
    p.toOuter start = .ok outer ↔ ¬ p.Overflows start ∧ outer = p.placedAt start := by
  rw [toOuter_eq]
  by_cases overflows : p.Overflows start
  · simp [overflows]
  · simp [overflows, eq_comm]

/-- It is refused only for a sum that overflows. -/
theorem toOuter_eq_error_iff {fault : Fault} :
    p.toOuter start = .error fault ↔ fault = .overflow ∧ p.Overflows start := by
  rw [toOuter_eq]
  by_cases overflows : p.Overflows start
  · simp [overflows, eq_comm]
  · simp [overflows]

/-- An accepted position is placed at the start. -/
theorem toOuter_eq_ok (accepted : p.toOuter start = .ok outer) : outer = p.placedAt start :=
  (toOuter_eq_ok_iff.mp accepted).2

/-- Nothing else can go wrong with a position. -/
theorem onlyOverflows_toOuter (p start : Position) : Checked.OnlyOverflows (p.toOuter start) := by
  intro fault refused
  exact (toOuter_eq_error_iff.mp refused).1

/-- Machine words are moved to machine words. -/
theorem inWords_of_toOuter (words : p.InWords) (startWords : start.InWords)
    (accepted : p.toOuter start = .ok outer) : outer.InWords := by
  obtain ⟨fits, rfl⟩ := toOuter_eq_ok_iff.mp accepted
  by_cases first : p.line = 0
  · rw [overflows_of_first first] at fits
    rw [placedAt_of_first first]
    exact ⟨startWords.1, Nat.lt_of_not_le fits⟩
  · rw [overflows_of_later first] at fits
    rw [placedAt_of_later first]
    exact ⟨Nat.lt_of_not_le fits, words.2⟩

/-! ## Inwards -/

/-- No placed position is before the start. -/
theorem start_le_placedAt (p start : Position) : start ≤ p.placedAt start :=
  placedAt_le_placedAt start (origin_le p)

/-- A position has an inner one unless it is before the start. -/
theorem toInner_eq_none_iff : q.toInner start = none ↔ q < start := by
  unfold toInner
  by_cases before : q < start
  · simp [before]
  · simp only [before, if_false, iff_false]
    split <;> simp

/-- The place in the text is the one that is moved there. -/
theorem toInner_eq_some_iff : q.toInner start = some p ↔ q = p.placedAt start := by
  constructor
  · intro found
    obtain ⟨line, character⟩ := q
    unfold toInner at found
    split at found
    · cases found
    · next behind =>
      -- Neither difference is cut off at zero, since `q` is not before the start.
      simp only [not_lt, le_iff] at behind
      split at found
      · next sameLine =>
        obtain rfl := Option.some.inj found
        rw [placedAt_of_first rfl, mk.injEq]
        simp only at sameLine ⊢
        omega
      · next otherLine =>
        obtain rfl := Option.some.inj found
        simp only at otherLine
        have later : line - start.line ≠ 0 := by omega
        rw [placedAt_of_later later, mk.injEq]
        simp only [and_true]
        omega
  · rintro rfl
    have behind : ¬ p.placedAt start < start := not_lt.mpr (start_le_placedAt p start)
    rw [toInner, if_neg behind]
    by_cases first : p.line = 0
    · obtain ⟨line, character⟩ := p
      obtain rfl : line = 0 := first
      simp [placedAt_of_first]
    · simp [placedAt_of_later first, first]

/-- A position of machine words that is not before the start is the place of one. -/
theorem exists_toOuter_eq (words : q.InWords) (behind : ¬ q < start) :
    ∃ p : Position, p.InWords ∧ q.toInner start = some p ∧ p.toOuter start = .ok q := by
  have found : q.toInner start ≠ none := mt toInner_eq_none_iff.mp behind
  obtain ⟨p, inner⟩ := Option.ne_none_iff_exists'.mp found
  obtain rfl := toInner_eq_some_iff.mp inner
  refine ⟨p, ?_, inner, toOuter_of_lt words.1 words.2⟩
  obtain ⟨line, character⟩ := words
  by_cases first : p.line = 0
  · simp only [placedAt_of_first first] at line character
    exact ⟨by omega, by omega⟩
  · simp only [placedAt_of_later first] at line character
    exact ⟨by omega, by omega⟩

/-! ## Order and composition -/

/-- Placing keeps the strict order both ways. -/
theorem placedAt_lt_placedAt_iff : p.placedAt start < q.placedAt start ↔ p < q := by
  constructor
  · intro before
    refine Decidable.byContradiction fun notBefore => ?_
    exact not_lt.mpr (placedAt_le_placedAt start (not_lt.mp notBefore)) before
  · intro before
    refine Decidable.byContradiction fun notBefore => ?_
    exact not_lt.mpr (le_of_placedAt_le_placedAt (not_lt.mp notBefore)) before

/-- Positions in order are moved in order. -/
theorem le_of_toOuter {first last : Position} (ordered : p ≤ q)
    (firstMoved : p.toOuter start = .ok first) (lastMoved : q.toOuter start = .ok last) :
    first ≤ last := by
  rw [toOuter_eq_ok firstMoved, toOuter_eq_ok lastMoved]
  exact placedAt_le_placedAt start ordered

/-- The sums of two moves are parts of those that are made for the place of the
    inner start. -/
theorem not_overflows_of_placedAt (startFits : ¬ start.Overflows outer)
    (fits : ¬ p.Overflows (start.placedAt outer)) :
    ¬ p.Overflows start ∧ ¬ (p.placedAt start).Overflows outer := by
  by_cases first : p.line = 0
  · rw [overflows_of_first first] at fits ⊢
    have sameLine : (p.placedAt start).line = start.line := by rw [placedAt_of_first first]
    by_cases startFirst : start.line = 0
    · rw [overflows_of_first (sameLine.trans startFirst)]
      simp only [placedAt_of_first first, placedAt_of_first startFirst] at fits ⊢
      omega
    · rw [overflows_of_later startFirst] at startFits
      rw [overflows_of_later (sameLine ▸ startFirst), sameLine]
      simp only [placedAt_of_later startFirst] at fits
      omega
  · rw [overflows_of_later first] at fits ⊢
    have laterLine : (p.placedAt start).line = start.line + p.line := by
      rw [placedAt_of_later first]
    have later : (p.placedAt start).line ≠ 0 := by omega
    rw [overflows_of_later later, laterLine]
    by_cases startFirst : start.line = 0
    · simp only [placedAt_of_first startFirst] at fits
      omega
    · simp only [placedAt_of_later startFirst] at fits
      omega

/-- A move to the place of an inner start can be made in two steps. -/
theorem toOuter_toOuter
    (accepted : (start.toOuter outer >>= fun place => p.toOuter place) = .ok moved) :
    (p.toOuter start >>= fun place => place.toOuter outer) = .ok moved := by
  obtain ⟨place, startMoved, placeMoved⟩ := Checked.bind_eq_ok_iff.mp accepted
  obtain ⟨startFits, rfl⟩ := toOuter_eq_ok_iff.mp startMoved
  obtain ⟨fits, rfl⟩ := toOuter_eq_ok_iff.mp placeMoved
  obtain ⟨innerFits, outerFits⟩ := not_overflows_of_placedAt startFits fits
  have inner : p.toOuter start = .ok (p.placedAt start) := toOuter_eq_ok_iff.mpr ⟨innerFits, rfl⟩
  refine Checked.bind_eq_ok_iff.mpr ⟨_, inner, toOuter_eq_ok_iff.mpr ⟨outerFits, ?_⟩⟩
  exact (placedAt_placedAt p start outer).symm

/-- The other way round it may not: here the inner start has no place. -/
example :
    ((mk 1 0).toOuter ⟨0, 1⟩ >>= fun place => place.toOuter ⟨0, wordLimit - 1⟩) = .ok ⟨1, 0⟩ ∧
      ((mk 0 1).toOuter ⟨0, wordLimit - 1⟩ >>= fun place => (mk 1 0).toOuter place) =
        .error .overflow :=
  ⟨rfl, rfl⟩

end Position

/-! ## Ranges -/

namespace Range

/-- A range between positions in order is never refused. -/
theorem onlyOverflows_between {start stop : Position} (ordered : start ≤ stop) :
    Checked.OnlyOverflows (between start stop) := by
  rw [between_eq_ok_iff.mpr ⟨ordered, rfl⟩]
  exact Checked.onlyOverflows_ok _

/-- The moved ends of a range in order are the ends of the moved range. -/
theorem toOuter_of_ordered {start stop origin first last : Position} (ordered : start ≤ stop)
    (firstMoved : start.toOuter origin = .ok first) (lastMoved : stop.toOuter origin = .ok last) :
    (Range.mk start stop).toOuter origin = .ok ⟨first, last⟩ := by
  have stays : first ≤ last := Position.le_of_toOuter ordered firstMoved lastMoved
  rw [toOuter, firstMoved, lastMoved]
  exact between_eq_ok_iff.mpr ⟨stays, rfl⟩

/-- A range in order is not refused for its order. -/
theorem onlyOverflows_toOuter {range : Range} (start : Position)
    (ordered : range.start ≤ range.stop) : Checked.OnlyOverflows (range.toOuter start) := by
  refine (Position.onlyOverflows_toOuter _ _).bind fun first firstMoved => ?_
  refine (Position.onlyOverflows_toOuter _ _).bind fun last lastMoved => ?_
  exact onlyOverflows_between (Position.le_of_toOuter ordered firstMoved lastMoved)

end Range

/-! ## The laws together -/

/-- The moves to a start and back. They are refused, and have no result, in
    exactly the given cases; they undo each other; they keep and reflect the
    order, so that no range in order is refused for it. They compose: where the
    place of the start is defined and a position can be moved there, it can be
    moved in two steps and ends at the same place. -/
theorem Position.toOuter_isomorphism (start : Position) :
    (∀ (p : Position) (fault : Fault),
      p.toOuter start = .error fault ↔ fault = .overflow ∧ p.Overflows start) ∧
    (∀ p outer : Position, p.toOuter start = .ok outer →
      start ≤ outer ∧ outer.toInner start = some p ∧
        (p.InWords → start.InWords → outer.InWords)) ∧
    (∀ q : Position, q.toInner start = none ↔ q < start) ∧
    (∀ q : Position, q.InWords → ¬ q < start →
      ∃ p : Position, p.InWords ∧ q.toInner start = some p ∧ p.toOuter start = .ok q) ∧
    (∀ p q first last : Position, p.toOuter start = .ok first → q.toOuter start = .ok last →
      (first < last ↔ p < q)) ∧
    (∀ range : Range, range.start ≤ range.stop →
      (∀ first last, range.toOuter start ≠ .error (.reversed first last)) ∧
      ∀ first last, range.start.toOuter start = .ok first → range.stop.toOuter start = .ok last →
        range.toOuter start = .ok ⟨first, last⟩) ∧
    ∀ p outer moved : Position,
      (start.toOuter outer >>= fun place => p.toOuter place) = .ok moved →
        (p.toOuter start >>= fun place => place.toOuter outer) = .ok moved := by
  refine ⟨fun p fault => toOuter_eq_error_iff, ?_, fun q => toInner_eq_none_iff, ?_, ?_, ?_, ?_⟩
  · intro p outer accepted
    refine ⟨?_, ?_, fun words startWords => inWords_of_toOuter words startWords accepted⟩
    · rw [toOuter_eq_ok accepted]
      exact start_le_placedAt p start
    · exact toInner_eq_some_iff.mpr (toOuter_eq_ok accepted)
  · intro q words behind
    exact exists_toOuter_eq words behind
  · intro p q first last firstMoved lastMoved
    rw [toOuter_eq_ok firstMoved, toOuter_eq_ok lastMoved]
    exact placedAt_lt_placedAt_iff
  · intro range ordered
    refine ⟨?_, fun first last => Range.toOuter_of_ordered ordered⟩
    intro first last refused
    cases Range.onlyOverflows_toOuter start ordered _ refused
  · intro p outer moved accepted
    exact toOuter_toOuter accepted

/-- A start right before the last column: one position goes to that column, one
    to the next line, and the first goes on if the start itself is moved. -/
theorem Position.toOuter_isomorphism_lastColumn :
    (mk 0 1).toOuter ⟨3, wordLimit - 2⟩ = .ok ⟨3, wordLimit - 1⟩ ∧
      (mk 1 0).toOuter ⟨3, wordLimit - 2⟩ = .ok ⟨4, 0⟩ ∧
      (mk 0 2).toOuter ⟨3, wordLimit - 2⟩ = .error .overflow ∧
      (mk 3 (wordLimit - 1)).toInner ⟨3, wordLimit - 2⟩ = some ⟨0, 1⟩ ∧
      (mk 3 (wordLimit - 1)).InWords ∧
      (∃ p : Position, p.InWords ∧ (mk 4 7).toInner ⟨3, wordLimit - 2⟩ = some p ∧
        p.toOuter ⟨3, wordLimit - 2⟩ = .ok ⟨4, 7⟩) ∧
      mk 3 (wordLimit - 1) < ⟨4, 0⟩ ∧
      (Range.mk ⟨0, 1⟩ ⟨1, 0⟩).toOuter ⟨3, wordLimit - 2⟩ = .ok ⟨⟨3, wordLimit - 1⟩, ⟨4, 0⟩⟩ ∧
      ((mk 0 1).toOuter ⟨3, wordLimit - 2⟩ >>= fun place => place.toOuter ⟨2, 9⟩) =
        .ok ⟨5, wordLimit - 1⟩ := by
  obtain ⟨refused, inverse, _, onto, monotone, ranges, composes⟩ :=
    toOuter_isomorphism ⟨3, wordLimit - 2⟩
  have first : (mk 0 1).toOuter ⟨3, wordLimit - 2⟩ = .ok ⟨3, wordLimit - 1⟩ := rfl
  have last : (mk 1 0).toOuter ⟨3, wordLimit - 2⟩ = .ok ⟨4, 0⟩ := rfl
  have ordered : mk 0 1 ≤ mk 1 0 := by decide
  obtain ⟨_, back, words⟩ := inverse _ _ first
  obtain ⟨_, whole⟩ := ranges ⟨⟨0, 1⟩, ⟨1, 0⟩⟩ ordered
  refine ⟨first, last, (refused _ _).mpr ⟨rfl, by decide⟩, back, words (by decide) (by decide),
    onto _ (by decide) (by decide), (monotone _ _ _ _ first last).mpr (by decide),
    whole _ _ first last, composes _ _ _ rfl⟩

end BlockMarkup
