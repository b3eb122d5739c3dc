import BlockMarkup.Cli.Inspect
import BlockMarkup.Proofs.File.Lookup
import BlockMarkup.Proofs.Variable.Innermost

/-!
# The reference at a position

The tool answers a position with the reference of the block there. A file
already lists the references of its blocks, and a position in the name of one of
them is answered with the block's name and a reference of that block. In code the
answer may be another reference than the one asked about: calls can stand in
calls, and the innermost one around the position counts.

A block is asked as code if its name is that of code blocks, whereas it is read
as code only if it has curly brackets besides. An array with such a name has
references that the tool never answers; all others it does.
-/

namespace BlockMarkup

open Text

/-! ## Calls around names -/

/-- Whether the value of every literal that is reported lies in the literal, and
    the literal in its call. -/
def ScriptReader.Nested (reader : ScriptReader) : Prop :=
  ∀ source outline, reader source = some outline → ∀ call ∈ outline.calls, ∀ whole value,
    call.argument = some (.literal whole value) → whole.Contains value ∧ call.span.Contains whole

/-- A span in another one has its range in the range of the other. -/
theorem Document.subRange_containsRange (document : Document) (range : Range) {outer inner : Span}
    (within : outer.Contains inner) :
    (document.subRange range outer.start outer.stop).containsRange
      (document.subRange range inner.start inner.stop) = true := by
  rw [Range.containsRange_iff]
  constructor
  · exact locate_le_locate document.text (Nat.add_le_add_left within.1 _)
  · exact locate_le_locate document.text (Nat.add_le_add_left within.2 _)

namespace AccessorCall

section Ranges

variable {document : Document} (fits : document.size < wordLimit) {range : Range}
  (located : document.HasPosition range.start)

include fits located

/-- A call that is found has the ranges of its spans, and its name is in the
    script. -/
theorem ranges_of_locate? {accessor : Accessor} {callSpan argumentSpan nameSpan : Span}
    (callOrdered : callSpan.Ordered) (argumentOrdered : argumentSpan.Ordered)
    (nameOrdered : nameSpan.Ordered) {call : AccessorCall}
    (found : locate? (.ofText (document.textIn range)) range.start accessor callSpan argumentSpan
      nameSpan = .ok (some call)) :
    nameSpan.stop ≤ size (document.textIn range) ∧
      call.reference.nameRange = document.subRange range nameSpan.start nameSpan.stop ∧
      call.callRange = document.subRange range callSpan.start callSpan.stop := by
  unfold locate? at found
  split at found
  · cases found
  · simp only [Document.outerRange?_textIn fits located callOrdered,
      Document.outerRange?_textIn fits located argumentOrdered,
      Document.outerRange?_textIn fits located nameOrdered, Checked.ok_bind] at found
    by_cases nameInside : nameSpan.stop ≤ size (document.textIn range)
    · by_cases callInside : callSpan.stop ≤ size (document.textIn range)
      · by_cases argumentInside : argumentSpan.stop ≤ size (document.textIn range)
        · simp only [nameInside, callInside, argumentInside, if_true] at found
          cases found
          exact ⟨nameInside, rfl, rfl⟩
        · simp only [nameInside, callInside, argumentInside, if_true, if_false] at found
          cases found
      · simp only [nameInside, callInside, if_true, if_false] at found
        cases found
    · simp only [nameInside, if_false] at found
      cases found

/-- Every accessor call comes from a member call with a literal. -/
theorem exists_memberCall_of_mem_inCode {reader : ScriptReader} (ordered : reader.Ordered)
    {calls : List AccessorCall}
    (listed : inCode reader (document.textIn range) range.start = .ok calls)
    {call : AccessorCall} (member : call ∈ calls) :
    ∃ outline made whole value, reader (document.textIn range) = some outline ∧
      made ∈ outline.calls ∧ made.argument = some (.literal whole value) ∧
      value.stop ≤ size (document.textIn range) ∧
      call.reference.nameRange = document.subRange range value.start value.stop ∧
      call.callRange = document.subRange range made.span.start made.span.stop := by
  unfold inCode at listed
  split at listed
  · cases listed
    cases member
  · next outline reported =>
    obtain ⟨made, inOutline, stepped⟩ := Checked.exists_of_mem_filterMap listed member
    have spans := ordered _ outline reported made inOutline
    unfold ofMemberCall? at stepped
    split at stepped
    · split at stepped
      · next accessor whole value _ literal =>
        obtain ⟨wholeOrdered, valueOrdered⟩ := spans.argument _ literal
        exact ⟨outline, made, whole, value, reported, inOutline, literal,
          ranges_of_locate? fits located spans.span wholeOrdered valueOrdered stepped⟩
      · cases stepped
    · cases stepped

/-- The call of a name is around it. -/
theorem callRange_containsRange {reader : ScriptReader} (ordered : reader.Ordered)
    (nested : reader.Nested) {calls : List AccessorCall}
    (listed : inCode reader (document.textIn range) range.start = .ok calls)
    {call : AccessorCall} (member : call ∈ calls) :
    call.callRange.containsRange call.reference.nameRange = true := by
  obtain ⟨outline, made, whole, value, reported, inOutline, literal, _, named, called⟩ :=
    exists_memberCall_of_mem_inCode fits located ordered listed member
  obtain ⟨valueWithin, wholeWithin⟩ := nested _ outline reported made inOutline whole value literal
  have within : made.span.Contains value :=
    ⟨Nat.le_trans wholeWithin.1 valueWithin.1, Nat.le_trans valueWithin.2 wholeWithin.2⟩
  rw [named, called]
  exact document.subRange_containsRange range within

end Ranges

/-- Where there is a call around a position, a call is found. -/
theorem exists_findAt {reader : ScriptReader} {code : Text} {origin p : Position}
    {calls : List AccessorCall} (listed : inCode reader code origin = .ok calls)
    {call : AccessorCall} (member : call ∈ calls)
    (inside : call.callRange.containsInclusive p = true) :
    ∃ hit, findAt reader code origin p = .ok (some hit) ∧ hit.call ∈ calls := by
  have hits : calls.filter (fun call => call.callRange.containsInclusive p) ≠ [] :=
    List.ne_nil_of_mem (List.mem_filter.mpr ⟨member, inside⟩)
  cases latest : latest? (calls.filter fun call => call.callRange.containsInclusive p) with
  | none => exact absurd (latest?_eq_none_iff.mp latest) hits
  | some innermost =>
    refine ⟨⟨innermost, innermost.argumentRange.containsInclusive p⟩, ?_,
      (List.mem_filter.mp (mem_of_latest? latest)).1⟩
    simp only [findAt, listed, Checked.ok_bind, latest]
    rfl

end AccessorCall

/-! ## The references of a block -/

namespace Block

variable {reading : Reading} {document : Document} {header : BlockHeader} {block : Block}

/-- The names of a block stand in its content, also those that end inside a
    break. -/
theorem Reads.containsRange_nameRange (reads : Reads reading document header block)
    (fits : document.size < wordLimit) (ordered : reading.reader.Ordered)
    {reference : VariableReference} (member : reference ∈ block.references) :
    block.contentRange.containsRange reference.nameRange = true := by
  have present := reads.hasRange_contentRange
  have matched := matchesSource_of_readContent reads.content reads.contentRange
  have referred := reads.references
  rcases readReferences_eq reading document
    (reading.settings.classify header.name header.bracket) matched with byCalls | interpolated
  · rw [byCalls] at referred
    obtain ⟨calls, listed, made⟩ := Checked.bind_eq_ok_iff.mp referred
    rw [← Checked.pure_eq_ok_iff.mp made] at member
    obtain ⟨call, called, rfl⟩ := List.mem_map.mp member
    obtain ⟨_, _, _, value, _, _, _, inside, named, _⟩ :=
      AccessorCall.exists_memberCall_of_mem_inCode fits present.start ordered listed called
    rw [named]
    exact Document.containsRange_subRange present inside
  · rw [interpolated] at referred
    exact (Document.pointsInto_of_mem_interpolated fits block.contentRange referred
      member).containsRange_nameRange present

/-- A block of code lists the references of the calls in its text. -/
theorem Reads.calls_of_code (reads : Reads reading document header block)
    (curly : header.bracket = .curly)
    (isCode : reading.settings.isCodeBlock header.name = true) :
    block.content = .text (document.textIn block.contentRange) ∧
      ∃ calls, AccessorCall.inCode reading.reader (document.textIn block.contentRange)
          block.contentRange.start = .ok calls ∧
        block.references = calls.map AccessorCall.reference := by
  have kind : reading.settings.classify header.name header.bracket = .code := by
    rw [curly, Settings.classify, if_pos isCode]
  have matched := matchesSource_of_readContent reads.content reads.contentRange
  have content := reads.content
  have referred := reads.references
  rw [kind] at content referred
  rcases readContent_eq_ok content with ⟨impossible, _⟩ | ⟨impossible, _⟩ | ⟨_, inner, made, _⟩
  · cases impossible
  · cases impossible
  · have text : block.content = .text inner.content := congrArg Closed.content made
    rw [text] at matched referred ⊢
    rw [show inner.content = document.textIn block.contentRange from matched] at referred ⊢
    obtain ⟨calls, listed, returned⟩ := Checked.bind_eq_ok_iff.mp referred
    exact ⟨rfl, calls, listed, (Checked.pure_eq_ok_iff.mp returned).symm⟩

end Block

/-! ## Answers -/

namespace Cli

/-- Whether an answer is about the block and one of its references. -/
def Answers (answer : Json) (block : Block) : Prop :=
  answer.member? "block".toList = some (.string block.name) ∧
    ∃ reference ∈ block.references, answer.member? "reference".toList = some reference.toJson

variable {reading : Reading} {document : Document} {header : BlockHeader} {block : Block}
  {reference : VariableReference} {p : Position}

/-- In code the innermost call around a name answers for it. -/
theorem exists_codeReferenceAt? (reads : Block.Reads reading document header block)
    (fits : document.size < wordLimit) (ordered : reading.reader.Ordered)
    (nested : reading.reader.Nested) (curly : header.bracket = .curly)
    (isCode : reading.settings.isCodeBlock header.name = true)
    (member : reference ∈ block.references)
    (inside : reference.nameRange.containsInclusive p = true) :
    ∃ answer, codeReferenceAt? reading.reader block p = .ok (some answer) ∧
      Answers answer block := by
  obtain ⟨content, calls, listed, references⟩ := reads.calls_of_code curly isCode
  rw [references] at member
  obtain ⟨call, called, rfl⟩ := List.mem_map.mp member
  have around := AccessorCall.callRange_containsRange fits reads.hasRange_contentRange.start
    ordered nested listed called
  obtain ⟨hit, found, hitMember⟩ := AccessorCall.exists_findAt listed called
    (Range.containsInclusive_of_containsRange around inside)
  have text : block.text? = some (document.textIn block.contentRange) := by
    rw [Block.text?, content]
  rw [codeReferenceAt?, text]
  simp only [found, Checked.ok_bind]
  refine ⟨_, rfl, rfl, hit.call.reference, ?_, rfl⟩
  rw [references]
  exact List.mem_map_of_mem hitMember

/-- Elsewhere the first name at the position answers. -/
theorem exists_textReferenceAt? (member : reference ∈ block.references)
    (inside : reference.nameRange.containsInclusive p = true) :
    ∃ answer, textReferenceAt? block p = some answer ∧ Answers answer block := by
  unfold textReferenceAt? VariableReference.findAt
  cases found : block.references.find? fun reference =>
      reference.nameRange.containsInclusive p with
  | none => exact absurd inside (List.find?_eq_none.mp found reference member)
  | some first => exact ⟨_, rfl, rfl, first, List.mem_of_find?_eq_some found, rfl⟩

/-- A position in the name of a reference of a file is answered with the block of
    that reference and a reference of that block, unless the block is an array
    that has the name of a code block. What reads scripts has to report spans in
    order, and names inside their literals inside their calls. -/
theorem answers_iff (reading : Reading) (document : Document) (fits : document.size < wordLimit)
    (ordered : reading.reader.Ordered) (nested : reading.reader.Nested) :
    ∃ file, document.parse reading = .ok file ∧
      ∀ block ∈ file.blocks, ∀ reference ∈ block.references, ∀ p,
        reference.nameRange.containsInclusive p = true →
          ((∃ answer, referenceAt? reading file p = .ok (some answer) ∧ Answers answer block) ↔
            ¬ (block.bracket = .square ∧ reading.settings.isCodeBlock block.name = true)) := by
  obtain ⟨file, parsed⟩ := Document.parse_accepted fits ordered
  refine ⟨file, parsed, ?_⟩
  intro block blockMember reference member p inside
  obtain ⟨scan, account, rfl⟩ := Document.accounts_of_parse parsed
  obtain ⟨header, _, read⟩ := account.read block blockMember
  have reads := Block.reads_of_read read
  have bracket := reads.bracket_eq
  -- The position leads to the block of the reference and to no other.
  have within := Range.containsInclusive_of_containsRange reads.containsRange_contentRange
    (Range.containsInclusive_of_containsRange
      (reads.containsRange_nameRange fits ordered member) inside)
  have found := ParsedFile.blockAt_eq account.apart blockMember within
  simp only [referenceAt?, found]
  by_cases isCode : reading.settings.isCodeBlock block.name = true
  · simp only [isCode, if_true, and_true]
    cases opened : header.bracket with
    | square =>
      rw [opened] at bracket
      have noText : block.text? = none := by
        unfold Block.bracket at bracket
        unfold Block.text?
        split at bracket
        · next items array => rw [array]
        · cases bracket
      simp only [codeReferenceAt?, noText, bracket, not_true_eq_false, iff_false]
      rintro ⟨answer, impossible, _⟩
      cases impossible
    | curly =>
      rw [opened] at bracket
      rw [reads.name] at isCode
      simp only [bracket, reduceCtorEq, not_false_eq_true, iff_true]
      exact exists_codeReferenceAt? reads fits ordered nested opened isCode member inside
  · simp only [isCode, if_false, and_false, not_false_eq_true, iff_true, Bool.false_eq_true]
    obtain ⟨answer, answered, about⟩ := exists_textReferenceAt? member inside
    exact ⟨answer, congrArg Except.ok answered, about⟩

/-- A call in a call, and an interpolated name. -/
def callInCall : Document :=
  .ofText ("s \x7b\nbru.setVar('a', bru.getVar('b'))\n\x7d\n" ++ "m \x7b\n\x7b\x7bv\x7d\x7d\n\x7d").toList

/-- Reads that one script. -/
def callInCallReading : Reading where
  settings := ⟨["s".toList], ["s".toList]⟩
  reader source :=
    if source = "bru.setVar('a', bru.getVar('b'))".toList then
      some ⟨[⟨"bru".toList, "setVar".toList, ⟨0, 32⟩, some (.literal ⟨11, 14⟩ ⟨12, 13⟩)⟩,
        ⟨"bru".toList, "getVar".toList, ⟨16, 31⟩, some (.literal ⟨27, 30⟩ ⟨28, 29⟩)⟩], false⟩
    else none

/-- A position on the inner of two calls is answered with the name that the inner call
    reads. -/
theorem answers_iff_callInCall :
    callInCall.size < wordLimit ∧ callInCallReading.reader.Ordered ∧
      callInCallReading.reader.Nested ∧
      ∃ file block reference, callInCall.parse callInCallReading = .ok file ∧
        block ∈ file.blocks ∧ reference ∈ block.references ∧
        reference.nameRange.containsInclusive ⟨1, 29⟩ = true ∧ reference.name = "b".toList ∧
        ∃ answer, referenceAt? callInCallReading file ⟨1, 29⟩ = .ok (some answer) ∧
          Answers answer block := by
  have ordered : callInCallReading.reader.Ordered := by
    intro source outline reported call member
    simp only [callInCallReading] at reported
    split at reported
    · cases reported
      simp only [List.mem_cons, List.not_mem_nil, or_false] at member
      rcases member with rfl | rfl
      · refine ⟨by decide, ?_⟩
        rintro argument ⟨⟩
        exact ⟨by decide, by decide⟩
      · refine ⟨by decide, ?_⟩
        rintro argument ⟨⟩
        exact ⟨by decide, by decide⟩
    · cases reported
  have nested : callInCallReading.reader.Nested := by
    intro source outline reported call member
    simp only [callInCallReading] at reported
    split at reported
    · cases reported
      simp only [List.mem_cons, List.not_mem_nil, or_false] at member
      rcases member with rfl | rfl
      · rintro whole value ⟨⟩
        exact ⟨by decide, by decide⟩
      · rintro whole value ⟨⟩
        exact ⟨by decide, by decide⟩
    · cases reported
  have fits : callInCall.size < wordLimit := by decide
  have evaluated : (callInCall.parse callInCallReading).toOption.map (fun file =>
      decide (∃ block ∈ file.blocks, block.bracket ≠ .square ∧ ∃ reference ∈ block.references,
        reference.nameRange.containsInclusive ⟨1, 29⟩ = true ∧ reference.name = "b".toList)) =
      some true := by decide +kernel
  obtain ⟨file, parsed, answered⟩ := answers_iff _ _ fits ordered nested
  rw [parsed] at evaluated
  obtain ⟨block, blockMember, curly, reference, member, inside, named⟩ :=
    of_decide_eq_true (Option.some.inj evaluated)
  have answer := (answered block blockMember reference member ⟨1, 29⟩ inside).mpr
    fun excepted => curly excepted.1
  exact ⟨fits, ordered, nested, file, block, reference, parsed, blockMember, member, inside, named,
    answer⟩

/-- An array that has the name of a code block. -/
def arrayNamedAsCode : Document :=
  .ofText "tests [\n\x7b\x7ba\x7d\x7d\n]".toList

/-- With the standard settings, which are valid, the file lists a reference that
    the tool does not answer. -/
theorem no_answer_in_arrayNamedAsCode :
    Settings.standard.check = .ok () ∧
      ∃ file block reference,
        arrayNamedAsCode.parse ⟨.standard, fun _ => none⟩ = .ok file ∧ block ∈ file.blocks ∧
        reference ∈ block.references ∧ reference.nameRange.containsInclusive ⟨1, 2⟩ = true ∧
        referenceAt? ⟨.standard, fun _ => none⟩ file ⟨1, 2⟩ = .ok none := by
  refine ⟨rfl, _, _, _, rfl, List.mem_singleton_self _, List.mem_singleton_self _, ?_, rfl⟩
  decide +kernel

end Cli

end BlockMarkup
