import BlockMarkup.Grammar.Field
import BlockMarkup.Proofs.Text.Trim

/-!
# Field lines by their first colon

A field line is taken apart from its start: blanks, the key with its mark,
blanks, a colon, the value. The same lines and the same pieces can be told with
nothing but the first colon and trimming. What stands before the colon is
trimmed to the key with its mark, and what stands behind it to the value.

`FieldLine.read?_eq_some_iff` says what the pieces of a field line are. That they
are found in one way only rests on three classes of characters that share none:
blanks, key characters and the colon.
-/

namespace BlockMarkup

/-! ## The pieces of a field line -/

/-- No key character is blank. -/
theorem isBlank_of_isKeyChar {c : Char} (key : isKeyChar c = true) : isBlank c = false := by
  simp only [isKeyChar, Bool.not_eq_true', Bool.or_eq_false_iff] at key
  exact key.1

/-- None is a colon. -/
theorem ne_colon_of_isKeyChar {c : Char} (key : isKeyChar c = true) : c ≠ ':' := by
  simp only [isKeyChar, Bool.not_eq_true', Bool.or_eq_false_iff, beq_eq_false_iff_ne] at key
  exact key.2

/-- No blank is a colon. -/
theorem ne_colon_of_isBlank {c : Char} (blank : isBlank c = true) : c ≠ ':' := by
  rintro rfl
  revert blank
  decide

/-- Whether a key begins with a mark: with a tilde that is not all of it. -/
def isMarked (marked : Text) : Bool :=
  marked.head? == some '~' && 2 ≤ marked.length

/-- A key that begins with a mark loses its first character, and any other stays whole. -/
theorem splitMark_eq (marked : Text) :
    splitMark marked = (isMarked marked, if isMarked marked then marked.tail else marked) := by
  fun_cases splitMark marked with
  | case1 c rest => simp [isMarked]
  | case2 key other =>
    have unmarked : isMarked marked = false := by
      rcases marked with _ | ⟨c, _ | ⟨d, rest⟩⟩
      · rfl
      · simp [isMarked]
      · have tilde : c ≠ '~' := by
          rintro rfl
          exact other d rest rfl
        simp [isMarked, tilde]
    simp [unmarked]

namespace FieldLine

/-- The key with its mark. -/
def marked (field : FieldLine) : Text :=
  markText field.disabled ++ field.key

/-- Whether pieces are such as a field line has. -/
structure Fits (field : FieldLine) : Prop where
  lead : Text.allBlank field.lead = true
  key : field.marked ≠ []
  keyChars : field.marked.all isKeyChar = true
  mark : splitMark field.marked = (field.disabled, field.key)
  gap : Text.allBlank field.gap = true
  value : '\n' ∉ field.value

/-- What stands before the colon. -/
def before (field : FieldLine) : Text :=
  field.lead ++ (field.marked ++ field.gap)

/-- The line is what stands before the colon, the colon, and the value. -/
theorem text_eq (field : FieldLine) : field.text = field.before ++ ':' :: field.value := by
  simp only [text, before, marked, List.append_assoc]

/-- The pieces that a line is read as are such as a field line has. -/
theorem fits_of_read? {line : Text} {field : FieldLine} (found : read? line = some field) :
    field.Fits := by
  simp only [read?] at found
  split at found
  · cases found
  · next value filled rest =>
    split at found
    · cases found
    · next oneLine =>
      cases found
      have whole := markText_append_splitMark ((Text.trimStart line).takeWhile isKeyChar)
      refine ⟨Text.allBlank_leadingBlanks line, ?_, ?_, ?_, Text.allBlank_leadingBlanks _, ?_⟩
      · rwa [marked, whole]
      · rw [marked, whole]
        exact List.all_takeWhile
      · rw [marked, whole]
      · simpa using oneLine
  · cases found

namespace Fits

variable {field : FieldLine} (fits : field.Fits)

include fits

/-- There is no blank in a key with its mark. -/
theorem unbroken : ∀ c ∈ field.marked, isBlank c = false := by
  intro c member
  exact isBlank_of_isKeyChar (List.all_eq_true.mp fits.keyChars c member)

/-- A line is read as the pieces that it is made of. -/
theorem read?_text : read? field.text = some field := by
  have stops := Text.stops_of_blanks (fun c => isBlank_of_isKeyChar (c := c)) fits.gap
    (c := ':') (by decide) field.value
  obtain ⟨body, lead⟩ := Text.trimStart_unbroken fits.lead fits.key fits.unbroken
    (field.gap ++ ':' :: field.value)
  have marked := Text.takeWhile_run fits.keyChars stops
  have afterKey := Text.dropWhile_run fits.keyChars stops
  have rest : Text.trimStart (field.gap ++ ':' :: field.value) = ':' :: field.value := by
    rw [Text.trimStart_append fits.gap, Text.trimStart_cons (by decide)]
  have gap := Text.leadingBlanks_append_cons fits.gap (c := ':') (by decide) field.value
  have oneLine : field.value.contains '\n' = false := by simpa using fits.value
  rw [text_eq, before, List.append_assoc, List.append_assoc, read?]
  simp only [body, lead, marked, afterKey, rest, gap]
  split
  · next empty => exact absurd empty fits.key
  · next value same _ =>
    obtain rfl : field.value = value := (List.cons.inj same).2
    rw [oneLine, if_neg Bool.false_ne_true, fits.mark]
  · next other => exact absurd rfl (other field.value)

/-- There is no colon before the one that ends the key. -/
theorem colon_notMem_before : ':' ∉ field.before := by
  intro member
  simp only [before, List.mem_append] at member
  rcases member with lead | key | gap
  · exact ne_colon_of_isBlank (List.all_eq_true.mp fits.lead _ lead) rfl
  · exact ne_colon_of_isKeyChar (List.all_eq_true.mp fits.keyChars _ key) rfl
  · exact ne_colon_of_isBlank (List.all_eq_true.mp fits.gap _ gap) rfl

/-- What stands before the colon is trimmed to the key with its mark. -/
theorem trim_before : Text.trim field.before = field.marked :=
  Text.trim_unbroken fits.lead fits.gap fits.key fits.unbroken

/-- The blanks before it are the leading ones. -/
theorem leadingBlanks_before : Text.leadingBlanks field.before = field.lead :=
  (Text.trimStart_unbroken fits.lead fits.key fits.unbroken field.gap).2

/-- A field is disabled if its key begins with a mark. -/
theorem disabled_eq : isMarked field.marked = field.disabled := by
  have mark := fits.mark
  rw [splitMark_eq] at mark
  exact congrArg Prod.fst mark

/-- The key is what the mark leaves. -/
theorem key_eq : (if field.disabled then field.marked.tail else field.marked) = field.key := by
  have mark := fits.mark
  rw [splitMark_eq, fits.disabled_eq] at mark
  exact congrArg Prod.snd mark

end Fits

end FieldLine

/-! ## The first colon -/

/-- Whether a line is parted at its first colon into a key that has no blanks in
    it, other blanks left aside, and a value that does not go on after a line
    feed. -/
structure PartsField (line before after : Text) : Prop where
  colon : line = before ++ ':' :: after
  firstColon : ':' ∉ before
  key : Text.trim before ≠ []
  unbroken : ∀ c ∈ Text.trim before, isBlank c = false
  oneLine : '\n' ∉ after

namespace SimpleField

/-- The field of what stands before a colon and what stands behind it. -/
def ofSides (before after : Text) (index : Nat) : SimpleField :=
  let marked := Text.trim before
  let disabled := isMarked marked
  let key := if disabled then marked.tail else marked
  { disabled := disabled
    key := key
    keyRange := Range.ofLength index
      (Text.size (Text.leadingBlanks before) + if disabled then 1 else 0) (Text.size key)
    value := Text.trim after
    valueRange := Range.ofLength index
      (Text.size before + 1 + Text.size (Text.leadingBlanks after))
      (Text.size (Text.trim after)) }

/-- Whether key and value are what their ranges span in a line. -/
structure SpansIn (line : Text) (field : SimpleField) : Prop where
  key : Text.slice? line field.keyRange.start.character field.keyRange.stop.character =
    some field.key
  value : Text.slice? line field.valueRange.start.character field.valueRange.stop.character =
    some field.value

end SimpleField

/-- The mark takes one byte, if it is there. -/
theorem size_markText (disabled : Bool) :
    Text.size (markText disabled) = if disabled then 1 else 0 := by
  cases disabled <;> rfl

namespace FieldLine

variable {field : FieldLine}

/-- The line that pieces make up is parted at the colon between them. -/
theorem Fits.partsField (fits : field.Fits) : PartsField field.text field.before field.value where
  colon := field.text_eq
  firstColon := fits.colon_notMem_before
  key := by
    rw [fits.trim_before]
    exact fits.key
  unbroken := by
    rw [fits.trim_before]
    exact fits.unbroken
  oneLine := fits.value

/-- The field of a line is that of the two sides of its colon. -/
theorem Fits.ofLine?_text (fits : field.Fits) (index : Nat) :
    SimpleField.ofLine? field.text index =
      some (SimpleField.ofSides field.before field.value index) := by
  have sizes : Text.size field.before =
      Text.size field.lead + Text.size (markText field.disabled) + Text.size field.key +
        Text.size field.gap := by
    simp only [before, marked, Text.size_append]
    omega
  rw [SimpleField.ofLine?, fits.read?_text, Option.map_some]
  simp only [SimpleField.ofSides, fits.trim_before, fits.leadingBlanks_before, fits.disabled_eq,
    fits.key_eq, sizes, ← size_markText, valueSpan, keySpan, Span.ofLength]

/-- A line that is parted at its first colon is made of the pieces of a field
    line. -/
theorem exists_fits {line before after : Text} (parts : PartsField line before after) :
    ∃ field : FieldLine, field.Fits ∧ field.before = before ∧ field.value = after := by
  obtain ⟨gap, made, blank⟩ := Text.leadingBlanks_append_trim_append_blanks before
  have whole := markText_append_splitMark (Text.trim before)
  refine ⟨⟨Text.leadingBlanks before, (splitMark (Text.trim before)).1,
    (splitMark (Text.trim before)).2, gap, after⟩, ⟨?_, ?_, ?_, ?_, blank, parts.oneLine⟩, ?_, rfl⟩
  · exact Text.allBlank_leadingBlanks before
  · rw [marked, whole]
    exact parts.key
  · rw [marked, whole, List.all_eq_true]
    intro c member
    have colon : c ≠ ':' := by
      rintro rfl
      apply parts.firstColon
      rw [made]
      exact List.mem_append_right _ (List.mem_append_left _ member)
    simp [isKeyChar, parts.unbroken c member, colon]
  · rw [marked, whole]
  · rw [FieldLine.before, marked, whole]
    exact made.symm

end FieldLine

namespace SimpleField

/-- Key and value stand where the field says. Before the key stand its blanks and
    its mark, before the value everything up to the colon and its own blanks. -/
theorem spansIn_ofSides {line before after : Text} (parts : PartsField line before after)
    (index : Nat) : (ofSides before after index).SpansIn line := by
  obtain ⟨field, fits, rfl, rfl⟩ := FieldLine.exists_fits parts
  obtain ⟨tail, value⟩ := Text.leadingBlanks_append_trim field.value
  have keyStart : Text.size (field.lead ++ markText field.disabled) =
      Text.size field.lead + if field.disabled then 1 else 0 := by
    rw [Text.size_append, size_markText]
  have valueStart : Text.size (field.before ++ ':' :: Text.leadingBlanks field.value) =
      Text.size field.before + 1 + Text.size (Text.leadingBlanks field.value) := by
    have colon : ':'.utf8Size = 1 := by decide
    rw [Text.size_append, Text.size_cons, colon]
    omega
  constructor
  · simp only [ofSides, fits.trim_before, fits.leadingBlanks_before, fits.disabled_eq, fits.key_eq]
    refine (Text.slice?_eq_some_iff _ _ _ _).mpr ⟨field.lead ++ markText field.disabled,
      field.gap ++ ':' :: field.value, ?_, keyStart, rfl⟩
    rw [parts.colon, FieldLine.before, FieldLine.marked]
    simp only [List.append_assoc]
  · refine (Text.slice?_eq_some_iff _ _ _ _).mpr
      ⟨field.before ++ ':' :: Text.leadingBlanks field.value, tail, ?_, valueStart, rfl⟩
    rw [parts.colon, List.append_assoc, List.cons_append]
    exact congrArg (fun rest => field.before ++ ':' :: rest) value

/-- The value of a line with nothing but blanks behind the colon is empty and
    stands at the end of the line. -/
theorem valueRange_of_blank (before : Text) {after : Text} (blank : Text.allBlank after = true)
    (index : Nat) : (ofSides before after index).valueRange =
      Range.emptyAt ⟨index, Text.size (before ++ ':' :: after)⟩ := by
  have colon : ':'.utf8Size = 1 := by decide
  simp only [ofSides, Text.trim_blank blank, Text.leadingBlanks_blank blank, Range.ofLength,
    Range.emptyAt, Text.size_nil, Nat.add_zero, Text.size_append, Text.size_cons, colon,
    Nat.add_assoc]

/-- A line holds a field exactly if it is parted at its first colon, and the
    field is that of the two sides. Key and value stand where their ranges say;
    a blank value has an empty range at the end of the line. -/
theorem ofLine?_by_firstColon (line : Text) (index : Nat) :
    (∀ field, ofLine? line index = some field ↔
      ∃ before after, PartsField line before after ∧ field = ofSides before after index) ∧
    ∀ before after, PartsField line before after →
      (ofSides before after index).SpansIn line ∧
        (Text.allBlank after = true →
          (ofSides before after index).valueRange = Range.emptyAt ⟨index, Text.size line⟩) := by
  constructor
  · intro field
    constructor
    · intro found
      obtain ⟨pieces, read, _⟩ := Option.map_eq_some_iff.mp found
      have fits := FieldLine.fits_of_read? read
      obtain rfl := FieldLine.text_of_read? read
      rw [fits.ofLine?_text] at found
      exact ⟨_, _, fits.partsField, (Option.some.inj found).symm⟩
    · rintro ⟨before, after, parts, rfl⟩
      obtain ⟨pieces, fits, rfl, rfl⟩ := FieldLine.exists_fits parts
      rw [parts.colon, ← pieces.text_eq]
      exact fits.ofLine?_text index
  · intro before after parts
    refine ⟨spansIn_ofSides parts index, ?_⟩
    intro blank
    rw [parts.colon]
    exact valueRange_of_blank before blank index

/-- A tilde that stands alone is a key that is not disabled, and a value of wide
    blanks is empty. -/
theorem ofLine?_by_firstColon_tilde :
    ∃ before after, PartsField "\u00a0~ : \u3000".toList before after ∧
      Text.allBlank after = true ∧
      ofLine? "\u00a0~ : \u3000".toList 7 = some (ofSides before after 7) ∧
      ofSides before after 7 =
        ⟨false, ['~'], Range.ofLength 7 2 1, [], Range.emptyAt ⟨7, 9⟩⟩ ∧
      (ofSides before after 7).SpansIn "\u00a0~ : \u3000".toList := by
  have key : Text.trim "\u00a0~ ".toList = ['~'] := by decide
  have unbroken : ∀ c ∈ Text.trim "\u00a0~ ".toList, isBlank c = false := by
    rw [key]
    exact List.forall_mem_singleton.mpr (by decide)
  have parts : PartsField "\u00a0~ : \u3000".toList "\u00a0~ ".toList " \u3000".toList :=
    ⟨by decide, by decide, by decide, unbroken, by decide⟩
  obtain ⟨exact, spans⟩ := ofLine?_by_firstColon "\u00a0~ : \u3000".toList 7
  refine ⟨_, _, parts, by decide, ?_, by decide, (spans _ _ parts).1⟩
  exact (exact _).mpr ⟨_, _, parts, rfl⟩

/-- Of two tildes the first is the mark, and only the first colon counts. -/
example : ofLine? "~~k: v:w ".toList 0 =
    some ⟨true, "~k".toList, Range.ofLength 0 1 2, "v:w".toList, Range.ofLength 0 5 3⟩ := by
  decide

end SimpleField

end BlockMarkup
