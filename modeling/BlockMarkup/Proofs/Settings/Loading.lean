import BlockMarkup.Proofs.Grammar.Header
import BlockMarkup.Settings.Loading

/-!
# Loaded settings are valid

A value asks for settings: for those in its section if it is an object that has
one and the section has their form, and for the standard settings otherwise. What
a section says is told without the reader, by where the two lists of names stand
in it and what holds where none stands.

Loading gives what is asked for exactly if it is valid, and says that it is not
otherwise. The standard settings that stand in for a section of another form go
through the same check, so no way leads around it. In settings that come out, a
block of code is a block of text, and the two lists decide how a block with a
curly bracket is read.
-/

namespace BlockMarkup

namespace Json

/-- Only a string has a text, and it is its own. -/
theorem text?_eq_some_iff (value : Json) (text : Text) :
    value.text? = some text ↔ value = .string text := by
  cases value <;> simp [text?]

/-- A list of texts is read exactly from an array of strings. -/
theorem list?_text_eq_some_iff (value : Json) (names : List Text) :
    value.list? text? = some names ↔ value = .array (names.map .string) := by
  cases value with
  | array items =>
    simp only [list?, array.injEq]
    induction items generalizing names with
    | nil =>
      rw [List.mapM_nil]
      cases names <;> simp
    | cons item rest hypothesis =>
      simp only [List.mapM_cons, Option.bind_eq_bind, Option.pure_def, Option.bind_eq_some_iff,
        Option.some.injEq, text?_eq_some_iff, hypothesis]
      constructor
      · rintro ⟨name, rfl, others, rfl, rfl⟩
        rfl
      · intro same
        cases names with
        | nil => cases same
        | cons name others =>
          obtain ⟨rfl, rfl⟩ := List.cons.inj same
          exact ⟨name, rfl, others, rfl, rfl⟩
  | _ => simp [list?]

end Json

namespace Settings

/-! ## What is asked for -/

/-- Whether a list of names stands at a place of a section. Where nothing stands,
    a standard list holds. -/
inductive NamesAt (standard : List Text) : Option Json → List Text → Prop where
  | missing : NamesAt standard none standard
  | written (names : List Text) : NamesAt standard (some (.array (names.map .string))) names

/-- Whether a section has the form of settings and says these. The lists are
    members of an object, or the first items of an array that has no others. -/
inductive Says : Json → Settings → Prop where
  | members (members : List (Text × Json)) (settings : Settings)
      (text : NamesAt defaultTextBlocks (members.lookup "textBlockNames".toList)
        settings.textBlocks)
      (code : NamesAt defaultCodeBlocks (members.lookup "codeBlockNames".toList)
        settings.codeBlocks) :
      Says (.object members) settings
  | items (items : List Json) (settings : Settings) (short : items.length ≤ 2)
      (text : NamesAt defaultTextBlocks items[0]? settings.textBlocks)
      (code : NamesAt defaultCodeBlocks items[1]? settings.codeBlocks) :
      Says (.array items) settings

/-- Whether a value is an object and has a section with settings in it. -/
def HasSection (given : Option Json) (part : Json) : Prop :=
  ∃ members, given = some (.object members) ∧ members.lookup "bru-parser".toList = some part

/-- Whether a value asks for these settings. -/
inductive Asks (given : Option Json) : Settings → Prop where
  | absent (noSection : ∀ part, ¬ HasSection given part) : Asks given standard
  | malformed (part : Json) (found : HasSection given part)
      (noSettings : ∀ settings, ¬ Says part settings) : Asks given standard
  | present (part : Json) (settings : Settings) (found : HasSection given part)
      (stands : Says part settings) : Asks given settings

/-- The names are those of the list that is there, or the standard ones where none is. -/
theorem namesOr_eq_some_iff (standard : List Text) (place : Option Json) (names : List Text) :
    namesOr standard place = some names ↔ NamesAt standard place names := by
  constructor
  · intro read
    cases place with
    | none =>
      cases read
      exact .missing
    | some value =>
      obtain rfl := (Json.list?_text_eq_some_iff value names).mp read
      exact .written names
  · intro stands
    cases stands with
    | missing => rfl
    | written => exact (Json.list?_text_eq_some_iff _ names).mpr rfl

/-- Settings are read from two places exactly if each has its list there. -/
theorem namesOr_pair_eq_some_iff (textPlace codePlace : Option Json) (settings : Settings) :
    (do return ⟨← namesOr defaultTextBlocks textPlace, ← namesOr defaultCodeBlocks codePlace⟩) =
        some settings ↔
      NamesAt defaultTextBlocks textPlace settings.textBlocks ∧
        NamesAt defaultCodeBlocks codePlace settings.codeBlocks := by
  simp only [Option.bind_eq_bind, Option.pure_def, Option.bind_eq_some_iff, Option.some.injEq,
    namesOr_eq_some_iff]
  constructor
  · rintro ⟨text, textStands, code, codeStands, rfl⟩
    exact ⟨textStands, codeStands⟩
  · rintro ⟨text, code⟩
    exact ⟨settings.textBlocks, text, settings.codeBlocks, code, rfl⟩

/-- A section is read as what it says. -/
theorem ofJson?_eq_some_iff (part : Json) (settings : Settings) :
    ofJson? part = some settings ↔ Says part settings := by
  constructor
  · intro read
    cases part with
    | object members =>
      obtain ⟨text, code⟩ := (namesOr_pair_eq_some_iff _ _ settings).mp read
      exact .members members settings text code
    | array items =>
      rw [ofJson?] at read
      split at read
      · next short =>
        obtain ⟨text, code⟩ := (namesOr_pair_eq_some_iff _ _ settings).mp read
        exact .items items settings short text code
      · cases read
    | _ => cases read
  · intro stands
    cases stands with
    | members members _ text code =>
      exact (namesOr_pair_eq_some_iff _ _ settings).mpr ⟨text, code⟩
    | items items _ short text code =>
      rw [ofJson?, if_pos short]
      exact (namesOr_pair_eq_some_iff _ _ settings).mpr ⟨text, code⟩

/-- The section is found exactly where the document has it. -/
theorem section_eq_some_iff (given : Option Json) (part : Json) :
    given.bind (Json.member? sectionKey) = some part ↔ HasSection given part := by
  constructor
  · intro found
    obtain ⟨value, rfl, member⟩ := Option.bind_eq_some_iff.mp found
    cases value with
    | object members => exact ⟨members, rfl, member⟩
    | _ => cases member
  · rintro ⟨members, rfl, member⟩
    exact member

section Requested

variable {given : Option Json} {part : Json}

/-- Without a section the standard settings are requested. -/
theorem requested_of_absent (noSection : ∀ part, ¬ HasSection given part) :
    requested given = standard := by
  have absent : given.bind (Json.member? sectionKey) = none := by
    rw [Option.eq_none_iff_forall_ne_some]
    intro part found
    exact noSection part ((section_eq_some_iff given part).mp found)
  rw [requested, absent]

/-- So they are if the section says nothing that can be read. -/
theorem requested_of_malformed (found : HasSection given part)
    (noSettings : ∀ settings, ¬ Says part settings) : requested given = standard := by
  have refused : ofJson? part = none := by
    rw [Option.eq_none_iff_forall_ne_some]
    intro settings read
    exact noSettings settings ((ofJson?_eq_some_iff part settings).mp read)
  simp only [requested, (section_eq_some_iff given part).mpr found, refused]

/-- What a section says is requested. -/
theorem requested_of_present (found : HasSection given part) {settings : Settings}
    (stands : Says part settings) : requested given = settings := by
  have read := (ofJson?_eq_some_iff part settings).mpr stands
  simp only [requested, (section_eq_some_iff given part).mpr found, read, merge]

end Requested

/-- Every value asks for settings, and for one only: for those that loading looks
    at. -/
theorem asks_iff (given : Option Json) (settings : Settings) :
    Asks given settings ↔ settings = requested given := by
  constructor
  · intro asks
    cases asks with
    | absent noSection => exact (requested_of_absent noSection).symm
    | malformed part found noSettings => exact (requested_of_malformed found noSettings).symm
    | present part _ found stands => exact (requested_of_present found stands).symm
  · rintro rfl
    by_cases found : ∃ part, HasSection given part
    · obtain ⟨part, found⟩ := found
      by_cases formed : ∃ settings, Says part settings
      · obtain ⟨settings, stands⟩ := formed
        rw [requested_of_present found stands]
        exact .present part settings found stands
      · have noSettings := not_exists.mp formed
        rw [requested_of_malformed found noSettings]
        exact .malformed part found noSettings
    · have noSection := not_exists.mp found
      rw [requested_of_absent noSection]
      exact .absent noSection

/-! ## What is valid -/

/-- Whether the names in both lists are such as a header can carry, no list has a
    name twice, and every block of code is listed as a block of text. -/
structure Valid (settings : Settings) : Prop where
  named : ∀ name, name ∈ settings.textBlocks ∨ name ∈ settings.codeBlocks →
    name ≠ [] ∧ ∀ c ∈ name, isWord c = true ∨ c = '-' ∨ c = ':'
  textDistinct : settings.textBlocks.Nodup
  codeDistinct : settings.codeBlocks.Nodup
  listed : ∀ name ∈ settings.codeBlocks, name ∈ settings.textBlocks

/-- The check is passed exactly by valid settings. -/
theorem check_eq_ok_iff_valid (settings : Settings) :
    settings.check = .ok () ↔ settings.Valid := by
  have named (name : Text) : isBlockName name = true ↔
      name ≠ [] ∧ ∀ c ∈ name, isWord c = true ∨ c = '-' ∨ c = ':' := by
    simp only [isBlockName_iff, List.all_eq_true, isNameChar_iff]
  rw [check_eq_ok_iff]
  constructor
  · rintro ⟨text, code, listed⟩
    refine ⟨?_, text.distinct, code.distinct, listed⟩
    rintro name (inText | inCode)
    · exact (named name).mp (text.blockNames name inText)
    · exact (named name).mp (code.blockNames name inCode)
  · intro valid
    refine ⟨⟨?_, valid.textDistinct⟩, ⟨?_, valid.codeDistinct⟩, valid.listed⟩
    · intro name member
      exact (named name).mpr (valid.named name (Or.inl member))
    · intro name member
      exact (named name).mpr (valid.named name (Or.inr member))

/-! ## What is loaded -/

/-- Settings are loaded if they are the requested ones and valid. -/
theorem load_eq_ok_iff (given : Option Json) (settings : Settings) :
    load given = .ok settings ↔ settings = requested given ∧ (requested given).Valid := by
  rw [← check_eq_ok_iff_valid, load]
  cases (requested given).check with
  | ok passed => simp [eq_comm]
  | error fault => simp

/-- Settings that are not valid are refused for that reason and no other. -/
theorem load_refused (given : Option Json) (invalid : ¬ (requested given).Valid) :
    ∃ fault, load given = .error (.invalid fault) := by
  rw [← check_eq_ok_iff_valid] at invalid
  rw [load]
  cases checked : (requested given).check with
  | ok passed => exact absurd checked invalid
  | error fault => exact ⟨fault, rfl⟩

/-- Whether the kind of each block with a curly bracket is told by the lists: code
    by the list of code, text by the list of text alone, and a dictionary by
    neither. -/
structure ClassifiesByLists (settings : Settings) (name : Text) : Prop where
  code : settings.classify name .curly = .code ↔ name ∈ settings.codeBlocks
  text : settings.classify name .curly = .text ↔
    name ∈ settings.textBlocks ∧ name ∉ settings.codeBlocks
  dictionary : settings.classify name .curly = .dictionary ↔
    name ∉ settings.textBlocks ∧ name ∉ settings.codeBlocks

/-- The lists that have its name tell the kind of a block with a curly bracket. -/
theorem classifiesByLists (settings : Settings) (name : Text) :
    settings.ClassifiesByLists name := by
  by_cases inCode : name ∈ settings.codeBlocks
  · constructor <;> simp [classify, isCodeBlock_iff, inCode]
  · by_cases inText : name ∈ settings.textBlocks
    · constructor <;> simp [classify, isCodeBlock_iff, isTextBlock_iff, inCode, inText]
    · constructor <;> simp [classify, isCodeBlock_iff, isTextBlock_iff, inCode, inText]

/-- Loading gives the settings that are asked for exactly if they are valid, and
    otherwise refuses them as invalid. What is loaded lists each block of code as
    a block of text, and how a block is read follows from the lists. -/
theorem load_by_validity (given : Option Json) :
    ∃ asked, (∀ settings, Asks given settings ↔ settings = asked) ∧
      (∀ settings, load given = .ok settings ↔ settings = asked ∧ asked.Valid) ∧
      (¬ asked.Valid → ∃ fault, load given = .error (.invalid fault)) ∧
      ∀ settings, load given = .ok settings → ∀ name,
        (settings.isCodeBlock name = true → settings.isTextBlock name = true) ∧
          settings.ClassifiesByLists name := by
  refine ⟨requested given, asks_iff given, load_eq_ok_iff given, load_refused given, ?_⟩
  intro settings loaded name
  obtain ⟨rfl, valid⟩ := (load_eq_ok_iff given settings).mp loaded
  refine ⟨?_, classifiesByLists _ name⟩
  intro code
  exact isTextBlock_iff.mpr (valid.listed name (isCodeBlock_iff.mp code))

/-- A section with no list but one of code blocks. -/
def codeOnly (names : List Text) : Option Json :=
  some (.object [("bru-parser".toList,
    .object [("codeBlockNames".toList, .array (names.map .string))])])

/-- The standard text blocks hold where no list of them is given, so a code block
    may be one of these and no other. -/
theorem load_by_validity_codeOnly :
    load (codeOnly ["docs".toList]) = .ok ⟨defaultTextBlocks, ["docs".toList]⟩ ∧
      (Settings.mk defaultTextBlocks ["docs".toList]).classify "tests".toList .curly = .text ∧
      ∃ fault, load (codeOnly ["docs".toList, "notes".toList]) = .error (.invalid fault) := by
  have asks (names : List Text) : Asks (codeOnly names) ⟨defaultTextBlocks, names⟩ :=
    .present _ _ ⟨_, rfl, rfl⟩ (.members _ _ .missing (.written names))
  obtain ⟨asked, unique, accepts, _, classified⟩ := load_by_validity (codeOnly ["docs".toList])
  obtain ⟨other, otherUnique, _, refuses, _⟩ :=
    load_by_validity (codeOnly ["docs".toList, "notes".toList])
  obtain rfl := (unique _).mp (asks _)
  obtain rfl := (otherUnique _).mp (asks _)
  have loaded := (accepts _).mpr ⟨rfl, (check_eq_ok_iff_valid _).mp rfl⟩
  refine ⟨loaded, ?_, refuses ?_⟩
  · exact (classified _ loaded "tests".toList).2.text.mpr (by decide)
  · intro valid
    exact absurd (valid.listed "notes".toList (by decide)) (by decide)

end Settings

end BlockMarkup
