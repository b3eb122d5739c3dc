import BlockMarkup.Grammar.Pattern
import Mathlib.Tactic.ByContra

/-!
# The ways through a pattern

The ways through a pattern are listed in an order, and two questions about the list
are answered apart. Whether there is a way at all does not depend on the order:
`Pattern.applies_cons_iff` divides the text into the part that a step takes and the
part that is left to the steps after it. Which way comes first is found step by step
as well, from the last step to the first, as long as the preferred choice of a step
lets the later ones go on: that is `Pattern.first?_cons`.

A pattern has at most one leftmost-first match in a text, and there is one if there is
a way from any place.
-/

namespace BlockMarkup

/-! ## What a step can take -/

namespace PatternStep

/-- Whether a step that stands at the offset can take a part of the text, the rest being
    left. -/
def Allows : PatternStep → Nat → Text → Text → Prop
  | start, offset, taken, _ => offset = 0 ∧ taken = []
  | stop, _, taken, rest => taken = [] ∧ rest = []
  | one allows, _, taken, _ => ∃ c, taken = [c] ∧ allows c = true
  | optional allows, _, taken, _ => taken = [] ∨ ∃ c, taken = [c] ∧ allows c = true
  | any allows, _, taken, _ => taken.all allows = true
  | some allows, _, taken, _ => taken ≠ [] ∧ taken.all allows = true
  | group inner, offset, taken, rest => inner.Allows offset taken rest

variable {allows : Char → Bool} {offset : Nat} {text : Text} {next : Place}

/-- A character is passed if it is there and allowed. -/
theorem pass?_eq_some_iff :
    pass? allows ⟨offset, text⟩ = Option.some next ↔
      ∃ c rest, text = c :: rest ∧ allows c = true ∧ next = ⟨offset + c.utf8Size, rest⟩ := by
  cases text with
  | nil => simp [pass?]
  | cons c rest =>
    rw [pass?]
    split
    · next allowed =>
      constructor
      · rintro ⟨⟩
        exact ⟨c, rest, rfl, allowed, rfl⟩
      · rintro ⟨_, _, ⟨⟩, _, rfl⟩
        rfl
    · next refused =>
      constructor
      · intro impossible
        cases impossible
      · rintro ⟨_, _, ⟨⟩, allowed, _⟩
        exact absurd allowed refused

/-- A run of allowed characters may end behind each of them, and before the first. -/
theorem mem_run_iff :
    next ∈ run allows offset text ↔
      ∃ taken rest, text = taken ++ rest ∧ taken.all allows = true ∧
        next = ⟨offset + Text.size taken, rest⟩ := by
  induction text generalizing offset with
  | nil => simp [run, and_assoc]
  | cons c rest hypothesis =>
    constructor
    · intro member
      rw [run] at member
      split at member
      · next allowed =>
        rcases List.mem_append.mp member with further | here
        · obtain ⟨taken, left, rfl, kind, rfl⟩ := hypothesis.mp further
          refine ⟨c :: taken, left, rfl, ?_, ?_⟩
          · rw [List.all_cons, allowed, kind, Bool.and_true]
          · rw [Text.size_cons, Nat.add_assoc]
        · exact ⟨[], c :: rest, rfl, rfl, List.mem_singleton.mp here⟩
      · exact ⟨[], c :: rest, rfl, rfl, List.mem_singleton.mp member⟩
    · rintro ⟨taken, left, parted, kind, here⟩
      rw [run]
      cases taken with
      | nil =>
        obtain rfl : c :: rest = left := parted
        split <;> simp [here]
      | cons first taken =>
        obtain ⟨rfl, rfl⟩ := List.cons.inj parted
        obtain ⟨allowed, onward⟩ := (Bool.and_eq_true _ _).mp kind
        rw [Text.size_cons, ← Nat.add_assoc] at here
        rw [if_pos allowed]
        exact List.mem_append_left _ (hypothesis.mpr ⟨taken, left, rfl, onward, here⟩)

/-- A step leads behind what it can take, and nowhere else. -/
theorem mem_reach_iff {step : PatternStep} :
    next ∈ step.reach ⟨offset, text⟩ ↔
      ∃ taken rest, text = taken ++ rest ∧ step.Allows offset taken rest ∧
        next = ⟨offset + Text.size taken, rest⟩ := by
  induction step with
  | start =>
    rw [reach]
    constructor
    · intro member
      split at member
      · next first => exact ⟨[], text, rfl, ⟨first, rfl⟩, List.mem_singleton.mp member⟩
      · cases member
    · rintro ⟨_, rest, rfl, ⟨first, rfl⟩, rfl⟩
      rw [if_pos first]
      exact List.mem_singleton.mpr rfl
  | stop =>
    rw [reach]
    constructor
    · intro member
      split at member
      · next last => exact ⟨[], text, rfl, ⟨rfl, last⟩, List.mem_singleton.mp member⟩
      · cases member
    · rintro ⟨_, _, rfl, ⟨rfl, rfl⟩, rfl⟩
      exact List.mem_singleton.mpr rfl
  | one allows =>
    rw [reach, Option.mem_toList, pass?_eq_some_iff]
    constructor
    · rintro ⟨c, rest, rfl, allowed, rfl⟩
      exact ⟨[c], rest, rfl, ⟨c, rfl, allowed⟩, rfl⟩
    · rintro ⟨_, rest, rfl, ⟨c, rfl, allowed⟩, rfl⟩
      exact ⟨c, rest, rfl, allowed, rfl⟩
  | optional allows =>
    rw [reach, List.mem_append, Option.mem_toList, pass?_eq_some_iff, List.mem_singleton]
    constructor
    · rintro (⟨c, rest, rfl, allowed, rfl⟩ | rfl)
      · exact ⟨[c], rest, rfl, .inr ⟨c, rfl, allowed⟩, rfl⟩
      · exact ⟨[], text, rfl, .inl rfl, rfl⟩
    · rintro ⟨_, rest, rfl, rfl | ⟨c, rfl, allowed⟩, rfl⟩
      · exact .inr rfl
      · exact .inl ⟨c, rest, rfl, allowed, rfl⟩
  | any allows => exact mem_run_iff
  | some allows =>
    simp only [reach, List.mem_flatMap, Option.mem_toList, pass?_eq_some_iff]
    constructor
    · rintro ⟨_, ⟨c, left, rfl, allowed, rfl⟩, further⟩
      obtain ⟨taken, rest, rfl, kind, rfl⟩ := mem_run_iff.mp further
      refine ⟨c :: taken, rest, rfl, ⟨List.cons_ne_nil c taken, ?_⟩, ?_⟩
      · rw [List.all_cons, allowed, kind, Bool.and_true]
      · rw [Text.size_cons, Nat.add_assoc]
    · rintro ⟨taken, rest, rfl, ⟨filled, kind⟩, rfl⟩
      obtain ⟨c, taken, rfl⟩ := List.exists_cons_of_ne_nil filled
      obtain ⟨allowed, onward⟩ := (Bool.and_eq_true _ _).mp kind
      refine ⟨_, ⟨c, taken ++ rest, rfl, allowed, rfl⟩, ?_⟩
      exact mem_run_iff.mpr ⟨taken, rest, rfl, onward, by rw [Text.size_cons, Nat.add_assoc]⟩
  | group inner hypothesis => exact hypothesis

/-! ## What a step prefers -/

/-- Whether a step leads to a place rather than to any other. -/
def Prefers (step : PatternStep) (place next : Place) : Prop :=
  (step.reach place).head? = Option.some next

variable {taken rest : Text}

/-- The first choice of a run is to take all of it. -/
theorem prefers_any (offset : Nat) (kind : taken.all allows = true)
    (stops : ∀ c, rest.head? = Option.some c → allows c = false) :
    (any allows).Prefers ⟨offset, taken ++ rest⟩ ⟨offset + Text.size taken, rest⟩ := by
  change (run allows offset (taken ++ rest)).head? = _
  induction taken generalizing offset with
  | nil =>
    cases rest with
    | nil => rfl
    | cons c rest =>
      rw [List.nil_append, run, if_neg (by simp [stops c rfl])]
      rfl
  | cons c taken hypothesis =>
    obtain ⟨allowed, onward⟩ := (Bool.and_eq_true _ _).mp kind
    have further := hypothesis (offset + c.utf8Size) onward
    rw [List.cons_append, run, if_pos allowed, List.head?_append, further, Text.size_cons,
      Nat.add_assoc]
    rfl

/-- It may take the whole text. -/
theorem prefers_any_whole (offset : Nat) (kind : taken.all allows = true) :
    (any allows).Prefers ⟨offset, taken⟩ ⟨offset + Text.size taken, []⟩ := by
  have whole : (any allows).Prefers ⟨offset, taken ++ []⟩ ⟨offset + Text.size taken, []⟩ :=
    prefers_any offset kind (by simp)
  rwa [List.append_nil] at whole

/-- So it is if the run must not be empty. -/
theorem prefers_some (offset : Nat) (filled : taken ≠ []) (kind : taken.all allows = true)
    (stops : ∀ c, rest.head? = Option.some c → allows c = false) :
    (some allows).Prefers ⟨offset, taken ++ rest⟩ ⟨offset + Text.size taken, rest⟩ := by
  obtain ⟨c, taken, rfl⟩ := List.exists_cons_of_ne_nil filled
  obtain ⟨allowed, onward⟩ := (Bool.and_eq_true _ _).mp kind
  have further : (run allows (offset + c.utf8Size) (taken ++ rest)).head? = _ :=
    prefers_any (offset + c.utf8Size) onward stops
  rw [Text.size_cons, ← Nat.add_assoc]
  simpa [Prefers, reach, pass?, allowed] using further

/-- It may take the whole text too. -/
theorem prefers_some_whole (offset : Nat) (filled : taken ≠ []) (kind : taken.all allows = true) :
    (some allows).Prefers ⟨offset, taken⟩ ⟨offset + Text.size taken, []⟩ := by
  have whole : (some allows).Prefers ⟨offset, taken ++ []⟩ ⟨offset + Text.size taken, []⟩ :=
    prefers_some offset filled kind (by simp)
  rwa [List.append_nil] at whole

/-- One allowed character leaves no choice. -/
theorem prefers_one (offset : Nat) (c : Char) (rest : Text) (allowed : allows c = true) :
    (one allows).Prefers ⟨offset, c :: rest⟩ ⟨offset + c.utf8Size, rest⟩ := by
  simp [Prefers, reach, pass?, allowed]

/-- Nor does a character that is spelled out. -/
theorem prefers_same (offset : Nat) (c : Char) (rest : Text) :
    (one (· == c)).Prefers ⟨offset, c :: rest⟩ ⟨offset + c.utf8Size, rest⟩ :=
  prefers_one offset c rest (beq_self_eq_true c)

/-- An optional character is taken rather than left. -/
theorem prefers_optional (offset : Nat) (c : Char) (rest : Text) (allowed : allows c = true) :
    (optional allows).Prefers ⟨offset, c :: rest⟩ ⟨offset + c.utf8Size, rest⟩ := by
  simp [Prefers, reach, pass?, allowed]

/-- A group prefers what its step does. -/
theorem Prefers.group {step : PatternStep} {place next : Place}
    (preferred : step.Prefers place next) :
    (PatternStep.group step).Prefers place next :=
  preferred

end PatternStep

/-! ## Ways -/

namespace Pattern

variable {step : PatternStep} {pattern later : Pattern} {place next : Place} {way : Way}

/-- Whether there is a way through a pattern from a place. -/
def Applies (pattern : Pattern) (place : Place) : Prop :=
  pattern.ways place ≠ []

/-- Without a way there is no first one. -/
theorem first?_eq_none_iff : pattern.first? place = none ↔ ¬ pattern.Applies place := by
  rw [first?, List.head?_eq_none_iff, Applies, not_not]

/-- There is a way if some choice of the first step leaves one to the others. -/
theorem applies_iff_exists_reach :
    Applies (step :: later) place ↔ ∃ next ∈ step.reach place, Applies later next := by
  simp only [Applies, ways, ne_eq, List.flatMap_eq_nil_iff, List.map_eq_nil_iff, not_forall,
    exists_prop]

/-- There is a way through a text if a part of it can be taken by the first step and the
    rest by the others. -/
theorem applies_cons_iff {offset : Nat} {text : Text} :
    Applies (step :: later) ⟨offset, text⟩ ↔
      ∃ taken rest, text = taken ++ rest ∧ step.Allows offset taken rest ∧
        Applies later ⟨offset + Text.size taken, rest⟩ := by
  rw [applies_iff_exists_reach]
  constructor
  · rintro ⟨next, reached, onward⟩
    obtain ⟨taken, rest, parted, allowed, rfl⟩ := PatternStep.mem_reach_iff.mp reached
    exact ⟨taken, rest, parted, allowed, onward⟩
  · rintro ⟨taken, rest, parted, allowed, onward⟩
    exact ⟨_, PatternStep.mem_reach_iff.mpr ⟨taken, rest, parted, allowed, rfl⟩, onward⟩

/-- The first way goes where a step prefers to go, if the others can go on from there. -/
theorem first?_cons (preferred : step.Prefers place next) (onward : first? later next = some way) :
    first? (step :: later) place = some (way.behind (step.spans place next)) := by
  obtain ⟨others, reached⟩ := List.head?_eq_some_iff.mp preferred
  obtain ⟨ways, found⟩ := List.head?_eq_some_iff.mp onward
  rw [first?, Pattern.ways, reached, List.flatMap_cons, found]
  rfl

/-- If the others cannot go on from the place behind an optional character, it is left. -/
theorem first?_optional {allows : Char → Bool} {offset : Nat} {text : Text}
    (blocked : ∀ c rest, text = c :: rest → allows c = true →
      ¬ Applies later ⟨offset + c.utf8Size, rest⟩)
    (onward : first? later ⟨offset, text⟩ = some way) :
    first? (.group (.optional allows) :: later) ⟨offset, text⟩ =
      some (way.behind [⟨offset, offset⟩]) := by
  obtain ⟨ways, found⟩ := List.head?_eq_some_iff.mp onward
  rw [first?, Pattern.ways, PatternStep.reach, PatternStep.reach]
  cases passed : PatternStep.pass? allows ⟨offset, text⟩ with
  | none =>
    simp [found, PatternStep.spans]
  | some next =>
    obtain ⟨c, rest, rfl, allowed, rfl⟩ := PatternStep.pass?_eq_some_iff.mp passed
    have none : Pattern.ways later ⟨offset + c.utf8Size, rest⟩ = [] :=
      not_not.mp (blocked c rest rfl allowed)
    simp [found, none, PatternStep.spans]

/-- A run that must not be empty needs an allowed character first. -/
theorem not_applies_some {allows : Char → Bool} {offset : Nat} {text : Text}
    (stops : ∀ c, text.head? = some c → allows c = false) :
    ¬ Applies (.group (.some allows) :: later) ⟨offset, text⟩ := by
  rw [applies_cons_iff]
  rintro ⟨taken, rest, rfl, ⟨filled, kind⟩, _⟩
  obtain ⟨c, taken, rfl⟩ := List.exists_cons_of_ne_nil filled
  have allowed := List.all_eq_true.mp kind c List.mem_cons_self
  rw [stops c rfl] at allowed
  cases allowed

/-- A pattern that stands at the start of a text has no way from any other place. -/
theorem not_applies_start {offset : Nat} {text : Text} (inside : offset ≠ 0) :
    ¬ Applies (.start :: later) ⟨offset, text⟩ := by
  rw [applies_cons_iff]
  rintro ⟨_, _, _, ⟨first, _⟩, _⟩
  exact inside first

/-- At the start of the text it goes on from there. -/
theorem first?_start (text : Text) (onward : first? later ⟨0, text⟩ = some way) :
    first? (.start :: later) ⟨0, text⟩ = some way := by
  have taken : PatternStep.start.Prefers ⟨0, text⟩ ⟨0, text⟩ := rfl
  exact first?_cons taken onward

/-- At the end of the text nothing is left to be done. -/
theorem first?_stop (offset : Nat) : first? [.stop] ⟨offset, []⟩ = some ⟨[], ⟨offset, []⟩⟩ :=
  rfl

/-! ## Matches -/

/-- There is at most one first match, and it ends in one place. -/
theorem FirstMatch.unique {spans others : List Span} {after other : Place}
    (found : pattern.FirstMatch place spans after) (again : pattern.FirstMatch place others other) :
    spans = others ∧ after = other := by
  induction found with
  | here found =>
    cases again with
    | here same =>
      obtain rfl := Option.some.inj (found.symm.trans same)
      exact ⟨rfl, rfl⟩
    | later missing => rw [missing] at found; cases found
  | later missing _ hypothesis =>
    cases again with
    | here found => rw [missing] at found; cases found
    | later _ onward => exact hypothesis onward

/-- So there is at most one row of matches. -/
theorem Successive.unique {found others : List (List Span)}
    (successive : pattern.Successive place found) (again : pattern.Successive place others) :
    found = others := by
  induction successive generalizing others with
  | ended missing =>
    cases again with
    | ended => rfl
    | found first => exact absurd first (missing _ _)
  | found first _ hypothesis =>
    cases again with
    | ended missing => exact absurd first (missing _ _)
    | found same onward =>
      obtain ⟨rfl, rfl⟩ := first.unique same
      rw [hypothesis onward]

/-- Without a way from a place, the matches are those from the next place on. -/
theorem Successive.skip {offset : Nat} {c : Char} {rest : Text} {found : List (List Span)}
    (missing : pattern.first? ⟨offset, c :: rest⟩ = none)
    (onward : pattern.Successive ⟨offset + c.utf8Size, rest⟩ found) :
    pattern.Successive ⟨offset, c :: rest⟩ found := by
  cases onward with
  | ended nowhere =>
    refine .ended ?_
    intro spans after first
    cases first with
    | here found => rw [missing] at found; cases found
    | later _ first => exact nowhere spans after first
  | found first onward => exact .found (.later missing first) onward

/-- The matches begin with the leftmost-first one. -/
theorem Successive.head?_eq_some_iff {text : Text} {found : List (List Span)}
    (successive : pattern.Successive ⟨0, text⟩ found) {spans : List Span} :
    found.head? = some spans ↔ pattern.LeftmostFirst text spans := by
  cases successive with
  | ended missing =>
    constructor
    · intro impossible
      cases impossible
    · rintro ⟨after, first⟩
      exact absurd first (missing spans after)
  | found first onward =>
    constructor
    · rintro ⟨⟩
      exact ⟨_, first⟩
    · rintro ⟨after, same⟩
      rw [(same.unique first).1]
      rfl

/-- A pattern that stands at the start of a text matches what its first way from there
    covers. -/
theorem leftmostFirst_start_iff {text : Text} {spans : List Span} :
    LeftmostFirst (.start :: later) text spans ↔
      ∃ way, first? (.start :: later) ⟨0, text⟩ = some way ∧
        spans = ⟨0, way.stop.offset⟩ :: way.groups := by
  constructor
  · rintro ⟨after, first⟩
    -- From any later place there is no way, so the match begins here.
    have inside : ∀ {place : Place} {spans : List Span} {after : Place},
        FirstMatch (.start :: later) place spans after → place.offset = 0 := by
      intro place spans after first
      induction first with
      | @here place way found =>
        by_contra inside
        rw [first?_eq_none_iff.mpr (not_applies_start inside)] at found
        cases found
      | later _ _ hypothesis => exact (Nat.add_eq_zero_iff.mp hypothesis).1
    cases first with
    | here found => exact ⟨_, found, rfl⟩
    | @later _ c _ _ _ _ onward =>
      have further := (Nat.add_eq_zero_iff.mp (inside onward)).2
      exact absurd further (Nat.ne_of_gt c.utf8Size_pos)
  · rintro ⟨way, found, rfl⟩
    exact ⟨_, .here found⟩

/-- A reader that covers the whole text agrees with a pattern that stands at its start,
    if what it reads is told by the first way and it reads something where there is a
    way. -/
theorem map_eq_some_iff_leftmostFirst {α : Type} {text : Text} {found? : Option α}
    (groups : α → List Span)
    (sound : ∀ found, found? = some found →
      first? (.start :: later) ⟨0, text⟩ = some ⟨groups found, ⟨Text.size text, []⟩⟩)
    (complete : Applies (.start :: later) ⟨0, text⟩ → ∃ found, found? = some found)
    (spans : List Span) :
    (found?.map fun found => ⟨0, Text.size text⟩ :: groups found) = some spans ↔
      LeftmostFirst (.start :: later) text spans := by
  rw [leftmostFirst_start_iff, Option.map_eq_some_iff]
  constructor
  · rintro ⟨found, read, rfl⟩
    exact ⟨_, sound found read, rfl⟩
  · rintro ⟨way, first, rfl⟩
    have applies : Applies (.start :: later) ⟨0, text⟩ := by
      by_contra missing
      rw [first?_eq_none_iff.mpr missing] at first
      cases first
    obtain ⟨found, read⟩ := complete applies
    obtain rfl := Option.some.inj (first.symm.trans (sound found read))
    exact ⟨found, read, rfl⟩

end Pattern

end BlockMarkup
