import BlockMarkup.Proofs.Block.SourceText
import BlockMarkup.Proofs.Guarded.Step

/-!
# Lines in guarded steps

What a line holds is cut out of it by the spans of its pieces, and the places of
the pieces are computed from these spans. Here each cut and each sum is a guarded
step. A header has its bracket read again from the line, and a bracket that opens
no block is a violation.

The pieces of a line are the line, in order, so no cut is refused; and no number
is larger than the size of the line. Each reader gives what the grammar gives.
-/

namespace BlockMarkup

/-- The bytes that are trimmed away are those of the leading blanks. -/
theorem Text.size_trimStart (text : Text) :
    size text - size (trimStart text) = size (leadingBlanks text) ∧
      size (trimStart text) ≤ size text := by
  have sizes := congrArg size (leadingBlanks_append_trimStart text)
  rw [size_append] at sizes
  omega

/-- The mark is empty if the field is not disabled. -/
theorem isEmpty_markText (disabled : Bool) : (markText disabled).isEmpty = !disabled := by
  cases disabled <;> rfl

namespace Guarded

open Text

/-- The bracket that a text is. -/
def bracketOf (text : Text) : Guarded Bracket :=
  if text = [Bracket.curly.opening] then return .curly
  else if text = [Bracket.square.opening] then return .square
  else .error (.unknownBracket text)

/-- No header has a bracket that is none. -/
theorem bracketOf_opening (bracket : Bracket) : bracketOf [bracket.opening] = .ok bracket := by
  cases bracket <;> rfl

/-- The header that a line holds. -/
def headerOn? (content : Text) (index : Nat) : Guarded (Option BlockHeader) :=
  match HeaderLine.read? content with
  | none => return none
  | some pieces => do
    let name ← slice content pieces.nameSpan
    let bracket ← bracketOf (← slice content pieces.bracketSpan)
    let nameRange ← onLine index pieces.nameSpan
    return some ⟨name, nameRange, bracket⟩

/-- The field that a line holds. -/
def fieldOn? (content : Text) (index : Nat) : Guarded (Option SimpleField) :=
  match FieldLine.read? content with
  | none => return none
  | some pieces => do
    let mark ← slice content pieces.markSpan
    let key ← slice content pieces.keySpan
    let raw ← slice content pieces.valueSpan
    let leading ← sub (size raw) (size (trimStart raw))
    let value := trim raw
    let valueStart ← add pieces.valueSpan.start leading
    let keyRange ← onLine index pieces.keySpan
    let valueRange ← onLine index ⟨valueStart, ← add valueStart (size value)⟩
    return some ⟨!mark.isEmpty, key, keyRange, value, valueRange⟩

/-- The entry that a line holds. -/
def entryOn? (place : EntryPlace) (content : Text) (index : Nat) : Guarded (Option Entry) :=
  if allBlank content then return none
  else
    match EntryLine.read? place content with
    | none => return none
    | some pieces => do
      let mark ← slice content pieces.markSpan
      let entry ← slice content pieces.entrySpan
      let entryRange ← onLine index pieces.entrySpan
      return some ⟨!mark.isEmpty, entry, entryRange⟩

/-- A whole line as plain text. -/
def plainText (content : Text) (index : Nat) : Guarded PlainText := do
  return ⟨content, ← onLine index ⟨0, size content⟩⟩

/-- A header is looked for in a line without a violation. -/
theorem headerOn?_eq (content : Text) (index : Nat) :
    headerOn? content index = .ok (BlockHeader.ofLine? content index) := by
  rw [headerOn?, BlockHeader.ofLine?]
  cases read : HeaderLine.read? content with
  | none => rfl
  | some pieces =>
    have parted := (HeaderLine.text_of_read? read).symm
    have nameParts : content = pieces.lead ++ (pieces.name ++
        (pieces.gap ++ pieces.bracket.opening :: pieces.trail)) := by
      rw [parted, HeaderLine.text]
      simp only [List.append_assoc]
    have bracketParts : content = (pieces.lead ++ pieces.name ++ pieces.gap) ++
        ([pieces.bracket.opening] ++ pieces.trail) := by
      rw [parted, HeaderLine.text, List.singleton_append]
    have one : size [pieces.bracket.opening] = 1 := by
      cases pieces.bracket <;> decide
    have name : slice content pieces.nameSpan = .ok pieces.name := slice_eq nameParts rfl rfl
    have bracket : slice content pieces.bracketSpan = .ok [pieces.bracket.opening] := by
      apply slice_eq bracketParts
      · simp only [HeaderLine.bracketSpan, Span.ofLength, size_append]
      · simp only [HeaderLine.bracketSpan, Span.ofLength, size_append, one]
    have nameRange : onLine index pieces.nameSpan =
        .ok (Range.ofLength index (size pieces.lead) (size pieces.name)) := onLine_eq rfl
    simp only [name, bracket, bracketOf_opening, nameRange, ok_bind]
    rfl

/-- So is a field, if the bytes of the line can be counted. -/
theorem fieldOn?_eq {content : Text} (held : size content < wordLimit) (index : Nat) :
    fieldOn? content index = .ok (SimpleField.ofLine? content index) := by
  rw [fieldOn?, SimpleField.ofLine?]
  cases read : FieldLine.read? content with
  | none => rfl
  | some pieces =>
    have parted := (FieldLine.text_of_read? read).symm
    have markParts : content = pieces.lead ++ (markText pieces.disabled ++
        (pieces.key ++ pieces.gap ++ ':' :: pieces.value)) := by
      rw [parted, FieldLine.text]
      simp only [List.append_assoc]
    have keyParts : content = (pieces.lead ++ markText pieces.disabled) ++
        (pieces.key ++ (pieces.gap ++ ':' :: pieces.value)) := by
      rw [parted, FieldLine.text]
      simp only [List.append_assoc]
    have valueParts : content = (pieces.lead ++ markText pieces.disabled ++ pieces.key ++
        pieces.gap ++ [':']) ++ (pieces.value ++ []) := by
      rw [parted, FieldLine.text]
      simp only [List.append_assoc, List.singleton_append, List.append_nil]
    have one : ':'.utf8Size = 1 := by decide
    have mark : slice content pieces.markSpan = .ok (markText pieces.disabled) :=
      slice_eq markParts rfl rfl
    have key : slice content pieces.keySpan = .ok pieces.key := by
      apply slice_eq keyParts
      · rw [FieldLine.keySpan, Span.ofLength, size_append]
      · rw [FieldLine.keySpan, Span.ofLength, size_append]
    have valueStart : pieces.valueSpan.start = size (pieces.lead ++ markText pieces.disabled ++
        pieces.key ++ pieces.gap ++ [':']) := by
      simp only [FieldLine.valueSpan, FieldLine.keySpan, Span.ofLength, size_append, size_cons,
        size_nil, one]
    have raw : slice content pieces.valueSpan = .ok pieces.value := by
      apply slice_eq valueParts valueStart
      rw [← valueStart]
      rfl
    -- The trimmed value stands inside the line, and so do the two sums.
    have inside : pieces.valueSpan.start + size (leadingBlanks pieces.value) +
        size (trim pieces.value) ≤ size content := by
      obtain ⟨tail, value⟩ := leadingBlanks_append_trim pieces.value
      have sizes := congrArg size valueParts
      have valueSizes := congrArg size value
      rw [size_append, ← valueStart, size_append, size_nil] at sizes
      rw [size_append, size_append] at valueSizes
      omega
    obtain ⟨leading, shorter⟩ := size_trimStart pieces.value
    have keyRange : onLine index pieces.keySpan =
        .ok (Range.ofLength index pieces.keySpan.start (size pieces.key)) := onLine_eq rfl
    simp only [mark, key, raw, sub_eq shorter, leading, keyRange, ok_bind,
      add_eq (show pieces.valueSpan.start + size (leadingBlanks pieces.value) < wordLimit by omega),
      add_eq (Nat.lt_of_le_of_lt inside held), isEmpty_markText, Bool.not_not]
    rw [← Span.ofLength, onLine_eq rfl]
    rfl

/-- So is an entry, in either place. -/
theorem entryOn?_eq (place : EntryPlace) (content : Text) (index : Nat) :
    entryOn? place content index = .ok (Entry.ofLine? place content index) := by
  rw [entryOn?, Entry.ofLine?]
  split
  · rfl
  · cases read : EntryLine.read? place content with
    | none => rfl
    | some pieces =>
      have parted := (EntryLine.text_of_read? read).symm
      have markParts : content = pieces.lead ++ (markText pieces.disabled ++
          (pieces.entry ++ pieces.gap ++ place.terminator)) := by
        rw [parted, EntryLine.text]
        simp only [List.append_assoc]
      have entryParts : content = (pieces.lead ++ markText pieces.disabled) ++
          (pieces.entry ++ (pieces.gap ++ place.terminator)) := by
        rw [parted, EntryLine.text]
        simp only [List.append_assoc]
      have mark : slice content pieces.markSpan = .ok (markText pieces.disabled) :=
        slice_eq markParts rfl rfl
      have entry : slice content pieces.entrySpan = .ok pieces.entry := by
        apply slice_eq entryParts
        · rw [size_append]
          rfl
        · rw [size_append]
          rfl
      have entryRange : onLine index pieces.entrySpan =
          .ok (Range.ofLength index pieces.entrySpan.start (size pieces.entry)) := onLine_eq rfl
      simp only [mark, entry, entryRange, ok_bind, isEmpty_markText, Bool.not_not]
      rfl

/-- A line is reported as plain text without a violation. -/
theorem plainText_eq (content : Text) (index : Nat) :
    plainText content index = .ok (PlainText.ofLine content index) := by
  have whole : (⟨0, size content⟩ : Span) = .ofLength 0 (size content) := by
    rw [Span.ofLength, Nat.zero_add]
  rw [plainText, onLine_eq whole]
  rfl

end Guarded

end BlockMarkup
