import BlockMarkup.Checked
import BlockMarkup.Range

/-!
# When checked computations are accepted

A sequence of checked computations is accepted exactly if each of them is. The
refusals of this library all come from two places: a range whose ends are not in
order, and a sum that is no machine word.
-/

namespace BlockMarkup

namespace Checked

variable {α β : Type}

/-- A sequence is accepted exactly if its steps are, one after the other. -/
theorem bind_eq_ok_iff {first : Checked α} {next : α → Checked β} {result : β} :
    (first >>= next) = .ok result ↔ ∃ value, first = .ok value ∧ next value = .ok result := by
  cases first with
  | error fault =>
    constructor
    · intro accepted
      cases accepted
    · rintro ⟨value, accepted, _⟩
      cases accepted
  | ok value =>
    constructor
    · intro accepted
      exact ⟨value, rfl, accepted⟩
    · rintro ⟨other, same, accepted⟩
      cases same
      exact accepted

/-- What follows a value goes on with it. -/
@[simp]
theorem ok_bind (value : α) (next : α → Checked β) : (Except.ok value >>= next) = next value := rfl

/-- A computation that does nothing has its value as the result. -/
theorem pure_eq_ok_iff {value result : α} :
    (pure value : Checked α) = .ok result ↔ value = result :=
  ⟨fun accepted => Except.ok.inj accepted, fun same => congrArg Except.ok same⟩

/-- A mapped result is there exactly if the result is. The cause of a missing
    result may be anything. -/
theorem map_eq_ok_iff {ε : Type} {given : Except ε α} {f : α → β} {result : β} :
    given.map f = .ok result ↔ ∃ value, given = .ok value ∧ f value = result := by
  cases given with
  | error cause => simp [Except.map]
  | ok value => simp [Except.map]

/-- What is kept of a list was found for an element of it. -/
theorem exists_of_mem_filterMap {step : α → Checked (Option β)} {values : List α} {kept : List β}
    (accepted : filterMap step values = .ok kept) {found : β} (member : found ∈ kept) :
    ∃ value ∈ values, step value = .ok (some found) := by
  induction values generalizing kept with
  | nil =>
    cases accepted
    cases member
  | cons value rest hypothesis =>
    obtain ⟨first, stepped, others⟩ := bind_eq_ok_iff.mp accepted
    obtain ⟨more, continued, joined⟩ := bind_eq_ok_iff.mp others
    cases pure_eq_ok_iff.mp joined
    rcases List.mem_append.mp member with here | later
    · refine ⟨value, List.mem_cons_self, ?_⟩
      rw [stepped, Option.mem_toList.mp here]
    · obtain ⟨source, present, steppedLater⟩ := hypothesis continued later
      exact ⟨source, List.mem_cons_of_mem value present, steppedLater⟩

/-- A list is gone through to its end if no element is refused. -/
theorem filterMap_accepted {step : α → Checked (Option β)} {values : List α}
    (accepted : ∀ value ∈ values, ∃ found, step value = .ok found) :
    ∃ kept, filterMap step values = .ok kept := by
  induction values with
  | nil => exact ⟨[], rfl⟩
  | cons value rest hypothesis =>
    obtain ⟨found, stepped⟩ := accepted value List.mem_cons_self
    obtain ⟨more, continued⟩ := hypothesis fun later member =>
      accepted later (List.mem_cons_of_mem value member)
    exact ⟨found.toList ++ more, by simp [filterMap, stepped, continued, pure, Except.pure]⟩

/-- Steps that find something for every element keep what they find. -/
theorem filterMap_eq_ok_map {step : α → Checked (Option β)} {found : α → β} {values : List α}
    (steps : ∀ value ∈ values, step value = .ok (some (found value))) :
    filterMap step values = .ok (values.map found) := by
  induction values with
  | nil => rfl
  | cons value rest hypothesis =>
    have later := hypothesis fun other member => steps other (List.mem_cons_of_mem value member)
    rw [filterMap, steps value List.mem_cons_self, later]
    rfl

/-- Steps that change what others find keep the changed results, and are refused
    where the others are. -/
theorem filterMap_map {step other : α → Checked (Option β)} {change : β → β}
    (same : ∀ value, other value = (step value).map (Option.map change)) (values : List α) :
    filterMap other values = (filterMap step values).map (List.map change) := by
  induction values with
  | nil => rfl
  | cons value rest hypothesis =>
    rw [filterMap, filterMap, same, hypothesis]
    cases step value with
    | error fault => rfl
    | ok found =>
      cases filterMap step rest with
      | error fault => rfl
      | ok more => cases found <;> rfl

/-- What steps keep of a list stands in the order of the list. -/
theorem pairwise_of_filterMap {step : α → Checked (Option β)} {values : List α} {kept : List β}
    {before : α → α → Prop} {after : β → β → Prop} (accepted : filterMap step values = .ok kept)
    (carried : ∀ first last, before first last → ∀ one other, step first = .ok (some one) →
      step last = .ok (some other) → after one other)
    (pairwise : values.Pairwise before) : kept.Pairwise after := by
  induction pairwise generalizing kept with
  | nil =>
    cases accepted
    exact .nil
  | @cons value rest first _ hypothesis =>
    obtain ⟨found, stepped, others⟩ := bind_eq_ok_iff.mp accepted
    obtain ⟨more, continued, joined⟩ := bind_eq_ok_iff.mp others
    cases pure_eq_ok_iff.mp joined
    cases found with
    | none => exact hypothesis continued
    | some one =>
      refine List.pairwise_cons.mpr ⟨?_, hypothesis continued⟩
      intro other member
      obtain ⟨last, present, steppedLater⟩ := exists_of_mem_filterMap continued member
      exact carried value last (first last present) one other stepped steppedLater

/-! ## Refusals -/

/-- Whether a computation is refused only for a sum that is no machine word. -/
def OnlyOverflows (computation : Checked α) : Prop :=
  ∀ fault, computation = .error fault → fault = .overflow

/-- A value is no failure. -/
theorem onlyOverflows_ok (value : α) : OnlyOverflows (Except.ok value) := by
  rintro fault ⟨⟩

/-- Two computations in a row fail with an overflow only if each does. -/
theorem OnlyOverflows.bind {first : Checked α} {next : α → Checked β} (only : OnlyOverflows first)
    (later : ∀ value, first = .ok value → OnlyOverflows (next value)) :
    OnlyOverflows (first >>= next) := by
  intro fault refused
  cases first with
  | error cause =>
    cases refused
    exact only fault rfl
  | ok value => exact later value rfl fault refused

/-- So does a row of them over a list. -/
theorem OnlyOverflows.filterMap {step : α → Checked (Option β)} {values : List α}
    (only : ∀ value ∈ values, OnlyOverflows (step value)) :
    OnlyOverflows (filterMap step values) := by
  induction values with
  | nil => exact onlyOverflows_ok []
  | cons value rest hypothesis =>
    refine (only value List.mem_cons_self).bind fun found _ => ?_
    refine OnlyOverflows.bind ?_ fun more _ => onlyOverflows_ok _
    exact hypothesis fun later member => only later (List.mem_cons_of_mem value member)

/-- A computation that overflows at worst, and does not, has a result. -/
theorem OnlyOverflows.accepted {computation : Checked α} (only : OnlyOverflows computation)
    (fits : computation ≠ .error .overflow) : ∃ value, computation = .ok value := by
  cases computation with
  | error fault => exact absurd (congrArg Except.error (only fault rfl)) fits
  | ok value => exact ⟨value, rfl⟩

end Checked

/-- A sum is accepted exactly if it is a machine word. -/
theorem addWord_eq_ok_iff {a b sum : Nat} :
    addWord a b = .ok sum ↔ a + b < wordLimit ∧ sum = a + b := by
  unfold addWord
  split
  · next fits =>
    constructor
    · intro accepted
      cases accepted
      exact ⟨fits, rfl⟩
    · rintro ⟨_, rfl⟩
      rfl
  · next tooLarge =>
    constructor
    · intro accepted
      cases accepted
    · rintro ⟨fits, _⟩
      exact absurd fits tooLarge

namespace Range

/-- A range is accepted exactly if its ends are in order. -/
theorem between_eq_ok_iff {start stop : Position} {range : Range} :
    between start stop = .ok range ↔ start ≤ stop ∧ range = ⟨start, stop⟩ := by
  unfold between
  split
  · next ordered =>
    constructor
    · intro accepted
      cases accepted
      exact ⟨ordered, rfl⟩
    · rintro ⟨_, rfl⟩
      rfl
  · next reversed =>
    constructor
    · intro accepted
      cases accepted
    · rintro ⟨ordered, _⟩
      exact absurd ordered reversed

end Range

end BlockMarkup
