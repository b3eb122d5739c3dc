import BlockMarkup.Settings

/-!
# Valid settings

The check of the settings goes through two lists of names, remembers the names
it has passed, and then looks from one list into the other. It is passed exactly
if each list has nothing but names of blocks, none of them twice, and the code
blocks are listed among the text blocks.
-/

namespace BlockMarkup.Settings

/-- A block holds text if its name is listed. -/
theorem isTextBlock_iff {settings : Settings} {name : Text} :
    settings.isTextBlock name = true ↔ name ∈ settings.textBlocks := by
  rw [isTextBlock, List.contains_iff_mem]

/-- A block holds code if its name is listed as such. -/
theorem isCodeBlock_iff {settings : Settings} {name : Text} :
    settings.isCodeBlock name = true ↔ name ∈ settings.codeBlocks := by
  rw [isCodeBlock, List.contains_iff_mem]

/-- Whether a list has names of blocks only, none of them twice. -/
structure ValidNames (names : List Text) : Prop where
  blockNames : ∀ name ∈ names, isBlockName name = true
  distinct : names.Nodup

/-- The empty list of names is valid. -/
theorem validNames_nil : ValidNames [] :=
  ⟨by simp, List.nodup_nil⟩

/-- A name is valid in front of others if it is the name of a block and none of them. -/
theorem validNames_cons_iff (name : Text) (rest : List Text) :
    ValidNames (name :: rest) ↔ isBlockName name = true ∧ name ∉ rest ∧ ValidNames rest := by
  constructor
  · rintro ⟨blockNames, distinct⟩
    obtain ⟨new, distinctRest⟩ := List.nodup_cons.mp distinct
    obtain ⟨first, others⟩ := List.forall_mem_cons.mp blockNames
    exact ⟨first, new, others, distinctRest⟩
  · rintro ⟨first, new, others, distinctRest⟩
    exact ⟨List.forall_mem_cons.mpr ⟨first, others⟩, List.nodup_cons.mpr ⟨new, distinctRest⟩⟩

/-- Names are passed if they are valid and none was passed before. The induction
    is on the names; those that were passed grow with each. -/
theorem checkNames_eq_ok_iff (list : NameList) (seen names : List Text) :
    checkNames list seen names = .ok () ↔ ValidNames names ∧ ∀ name ∈ names, name ∉ seen := by
  induction names generalizing seen with
  | nil => simp [checkNames, validNames_nil]
  | cons name rest hypothesis =>
    rw [checkNames, validNames_cons_iff, List.forall_mem_cons]
    by_cases valid : isBlockName name = true
    · by_cases passed : name ∈ seen
      · simp [valid, passed]
      · have apart : (∀ other ∈ rest, other ∉ name :: seen) ↔
            name ∉ rest ∧ ∀ other ∈ rest, other ∉ seen := by
          simp only [List.mem_cons, not_or]
          constructor
          · intro others
            refine ⟨fun member => (others name member).1 rfl, ?_⟩
            intro other member
            exact (others other member).2
          · rintro ⟨new, others⟩ other member
            exact ⟨fun same => new (same ▸ member), others other member⟩
        simp only [valid, Bool.not_true, Bool.false_eq_true, if_false, List.contains_iff_mem, passed,
          hypothesis, apart, not_false_eq_true, true_and]
        constructor
        · rintro ⟨validRest, new, others⟩
          exact ⟨⟨new, validRest⟩, others⟩
        · rintro ⟨⟨new, validRest⟩, others⟩
          exact ⟨validRest, new, others⟩
    · simp [valid]

/-- The settings are passed exactly if both lists are valid and the code blocks
    are text blocks. -/
theorem check_eq_ok_iff (settings : Settings) :
    settings.check = .ok () ↔
      ValidNames settings.textBlocks ∧ ValidNames settings.codeBlocks ∧
        ∀ name ∈ settings.codeBlocks, name ∈ settings.textBlocks := by
  have text := checkNames_eq_ok_iff .textBlocks [] settings.textBlocks
  have code := checkNames_eq_ok_iff .codeBlocks [] settings.codeBlocks
  have listed : settings.codeBlocks.find? (fun name => !settings.isTextBlock name) = none ↔
      ∀ name ∈ settings.codeBlocks, name ∈ settings.textBlocks := by
    simp [isTextBlock]
  simp only [List.not_mem_nil, not_false_eq_true, implies_true, and_true] at text code
  rw [← text, ← code, ← listed, check]
  cases checkNames .textBlocks [] settings.textBlocks with
  | error fault => simp [bind, Except.bind]
  | ok passed =>
    cases checkNames .codeBlocks [] settings.codeBlocks with
    | error fault => simp [bind, Except.bind]
    | ok passed =>
      cases settings.codeBlocks.find? fun name => !settings.isTextBlock name with
      | none => simp [bind, Except.bind]
      | some name => simp [bind, Except.bind]

end BlockMarkup.Settings
