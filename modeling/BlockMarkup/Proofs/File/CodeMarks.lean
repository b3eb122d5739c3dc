import BlockMarkup.Proofs.File.Headers
import BlockMarkup.Proofs.File.LineBreaks
import BlockMarkup.Proofs.Settings.Validity

/-!
# Marking texts as code

Two settings that agree on which blocks hold text may mark different ones of them
as code. A text that is marked as code is still read as a text, so both settings
find the same blocks with the same contents, and the same text between them. The
mark decides only how the references of the block are found. Square brackets make
an array whatever the mark says.

`Settings.SameTexts` is what is asked of the settings, and only which names they
list matters. The two scans go in step: `Document.scanLines_sameTexts` carries
`Block.SameButForMarks` over the lines.
-/

namespace BlockMarkup

/-! ## What is to be shown -/

/-- Whether two settings list the same texts, and mark as code only what they list
    as a text. -/
structure Settings.SameTexts (first second : Settings) : Prop where
  texts : ∀ name, name ∈ first.textBlocks ↔ name ∈ second.textBlocks
  firstCode : ∀ name ∈ first.codeBlocks, name ∈ first.textBlocks
  secondCode : ∀ name ∈ second.codeBlocks, name ∈ second.textBlocks

/-- The same block but for its references, which may differ if the block has curly
    brackets and just one of the settings marks it as code. -/
structure Block.SameButForMarks (first second : Settings) (block other : Block) : Prop where
  name : block.name = other.name
  nameRange : block.nameRange = other.nameRange
  content : block.content = other.content
  contentRange : block.contentRange = other.contentRange
  range : block.range = other.range
  references : block.references = other.references ∨
    (block.bracket = .curly ∧
      ¬ (block.name ∈ first.codeBlocks ↔ block.name ∈ second.codeBlocks))

/-- Where both settings mark the same names, nothing is left in which blocks may differ. -/
theorem Block.SameButForMarks.eq_of_marks {first second : Settings} {block other : Block}
    (alike : block.SameButForMarks first second other)
    (marks : ∀ name, name ∈ first.codeBlocks ↔ name ∈ second.codeBlocks) : block = other := by
  have references : block.references = other.references :=
    alike.references.resolve_right fun differs => differs.2 (marks block.name)
  obtain ⟨name, nameRange, content, contentRange, range, _⟩ := alike
  cases block
  cases other
  rw [Block.mk.injEq]
  exact ⟨name, nameRange, content, contentRange, range, references⟩

/-! ## Kinds of content -/

namespace Settings

/-- Only the mark tells two kinds apart, and then both are kinds of text. -/
theorem SameTexts.classify_cases {first second : Settings} (same : first.SameTexts second)
    (name : Text) (bracket : Bracket) :
    first.classify name bracket = second.classify name bracket ∨
      (bracket = .curly ∧ ¬ (name ∈ first.codeBlocks ↔ name ∈ second.codeBlocks) ∧
        (first.classify name bracket = .code ∧ second.classify name bracket = .text ∨
          first.classify name bracket = .text ∧ second.classify name bracket = .code)) := by
  cases bracket with
  | square => exact Or.inl rfl
  | curly =>
    have text := same.texts name
    have firstText := same.firstCode name
    have secondText := same.secondCode name
    by_cases firstCode : name ∈ first.codeBlocks
    · by_cases secondCode : name ∈ second.codeBlocks
      · simp [classify, isCodeBlock_iff, firstCode, secondCode]
      · have listed := text.mp (firstText firstCode)
        simp [classify, isCodeBlock_iff, isTextBlock_iff, firstCode, secondCode, listed]
    · by_cases secondCode : name ∈ second.codeBlocks
      · have listed := text.mpr (secondText secondCode)
        simp [classify, isCodeBlock_iff, isTextBlock_iff, firstCode, secondCode, listed]
      · simp [classify, isCodeBlock_iff, isTextBlock_iff, firstCode, secondCode, text]

end Settings

namespace Block

variable {reader : ScriptReader} {document : Document} {first second : Settings}
  (same : first.SameTexts second)

include same

/-- The content is read in the same way, as code is read as a text. -/
theorem readContent_sameTexts (firstLine : Nat) (name : Text) (bracket : Bracket) :
    readContent document firstLine (first.classify name bracket) =
      readContent document firstLine (second.classify name bracket) := by
  rcases same.classify_cases name bracket with kinds | ⟨_, _, ⟨code, text⟩ | ⟨text, code⟩⟩
  · rw [kinds]
  · rw [code, text]
    rfl
  · rw [code, text]
    rfl

/-- A header reads the same block but for the references, or one that is never
    closed under either settings. -/
theorem read_sameTexts {header : BlockHeader} {result otherResult : Except Unclosed Block}
    (found : read ⟨first, reader⟩ document header = .ok result)
    (otherFound : read ⟨second, reader⟩ document header = .ok otherResult) :
    (∃ cause, result = .error cause ∧ otherResult = .error cause) ∨
    ∃ block other, result = .ok block ∧ otherResult = .ok other ∧
      block.SameButForMarks first second other := by
  have word := word_of_read found
  have contents : readContent document (header.line + 1) _ = _ :=
    readContent_sameTexts same (header.line + 1) header.name header.bracket
  obtain ⟨outcome, ended⟩ := readContent_accepted document (header.line + 1)
    (first.classify header.name header.bracket)
  have otherEnded := ended
  rw [contents] at otherEnded
  cases outcome with
  | error cause =>
    left
    rw [read_of_unclosed word ended] at found
    rw [read_of_unclosed word otherEnded] at otherFound
    exact ⟨cause, (Except.ok.inj found).symm, (Except.ok.inj otherFound).symm⟩
  | ok closed =>
    right
    have covered := document.contentRange_eq (header.line + 1) closed.closingLine
    have read := found
    have otherRead := otherFound
    rw [read_of_closed word ended covered] at read
    rw [read_of_closed word otherEnded covered] at otherRead
    obtain ⟨references, referred, rfl⟩ := Checked.map_eq_ok_iff.mp read
    obtain ⟨otherReferences, otherReferred, rfl⟩ := Checked.map_eq_ok_iff.mp otherRead
    refine ⟨_, _, rfl, rfl, rfl, rfl, rfl, rfl, rfl, ?_⟩
    rcases same.classify_cases header.name header.bracket with kinds | ⟨curly, marks, _⟩
    · left
      have alike : readReferences ⟨first, reader⟩ document = readReferences ⟨second, reader⟩ document :=
        rfl
      rw [alike, kinds, otherReferred] at referred
      exact (Except.ok.inj referred).symm
    · right
      have bracket := (reads_of_read found).bracket_eq
      exact ⟨bracket.trans curly, marks⟩

end Block

namespace Document

variable {reader : ScriptReader} {document : Document} {first second : Settings}

/-- Two scans of a document go in step. -/
theorem scanLines_sameTexts (same : first.SameTexts second) {lines : List Text}
    {index inside : Nat} {start : Position} {scan other : Scan}
    (scanned : scanLines ⟨first, reader⟩ document lines index inside start = .ok scan)
    (otherScanned : scanLines ⟨second, reader⟩ document lines index inside start = .ok other) :
    List.Forall₂ (Block.SameButForMarks first second) scan.blocks other.blocks ∧
      scan.outside = other.outside := by
  induction lines generalizing index inside start scan other with
  | nil =>
    rw [scanLines_nil] at scanned otherScanned
    cases scanned
    cases otherScanned
    exact ⟨.nil, rfl⟩
  | cons content rest hypothesis =>
    cases inside with
    | succ inside => exact hypothesis scanned otherScanned
    | zero =>
      cases opened : BlockHeader.ofLine? content index with
      | none =>
        rw [scanLines_pass _ _ opened] at scanned otherScanned
        exact hypothesis scanned otherScanned
      | some header =>
        obtain ⟨result, read⟩ := exists_read_of_scanLines opened scanned
        obtain ⟨otherResult, otherRead⟩ := exists_read_of_scanLines opened otherScanned
        rcases Block.read_sameTexts same read otherRead with
          ⟨cause, rfl, rfl⟩ | ⟨block, otherBlock, rfl, rfl, alike⟩
        · rw [scanLines_unclosed _ _ opened read] at scanned
          rw [scanLines_unclosed _ _ opened otherRead] at otherScanned
          cases scanned
          cases otherScanned
          exact ⟨.nil, rfl⟩
        · have closing : otherBlock.closingLine = block.closingLine := by
            rw [Block.closingLine, ← alike.range, Block.closingLine]
          rw [scanLines_block _ _ opened read] at scanned
          rw [scanLines_block _ _ opened otherRead, closing] at otherScanned
          obtain ⟨later, continued, rfl⟩ := Checked.map_eq_ok_iff.mp scanned
          obtain ⟨otherLater, otherContinued, rfl⟩ := Checked.map_eq_ok_iff.mp otherScanned
          obtain ⟨blocks, outside⟩ := hypothesis continued otherContinued
          exact ⟨.cons alike blocks, congrArg (document.gap start ⟨index, 0⟩ ++ ·) outside⟩

/-- Settings that list the same texts, of which each marks some as code, find the
    same text outside of blocks and the same blocks but for the references of
    those that one of them marks and the other does not. So if they mark the same
    blocks they find the same file, whatever the order of the names and however
    often a name is listed. -/
theorem parse_sameTexts (reader : ScriptReader) (document : Document) (first second : Settings)
    (same : first.SameTexts second) {file other : ParsedFile}
    (parsed : document.parse ⟨first, reader⟩ = .ok file)
    (otherParsed : document.parse ⟨second, reader⟩ = .ok other) :
    file.outside = other.outside ∧
      List.Forall₂ (Block.SameButForMarks first second) file.blocks other.blocks ∧
      ((∀ name, name ∈ first.codeBlocks ↔ name ∈ second.codeBlocks) → file = other) := by
  obtain ⟨scan, scanned, rfl⟩ := parse_eq_ok_iff.mp parsed
  obtain ⟨otherScan, otherScanned, rfl⟩ := parse_eq_ok_iff.mp otherParsed
  obtain ⟨blocks, outside⟩ := scanLines_sameTexts same scanned otherScanned
  refine ⟨outside, blocks, ?_⟩
  intro marks
  have equal : scan.blocks = otherScan.blocks := by
    rw [← List.forall₂_eq_eq_eq]
    apply blocks.imp
    intro block otherBlock alike
    exact alike.eq_of_marks marks
  rw [Scan.file, Scan.file, equal, outside]

/-- A text, an array of the same name and another text, with a name in each. -/
def markedText : Document :=
  ofText ("x\ns \x7b\n\x7b\x7ba\x7d\x7d\n\x7d\ns [\n\x7b\x7bb\x7d\x7d\n]\n" ++
    "t \x7b\n\x7b\x7bc\x7d\x7d\n\x7d").toList

/-- Marks the first text as code. -/
def firstMarked : Settings := ⟨["s".toList, "t".toList], ["s".toList]⟩

/-- Marks the other text, and lists the texts in another order and one of them
    twice. -/
def otherMarked : Settings := ⟨["t".toList, "s".toList, "t".toList], ["t".toList]⟩

/-- The texts that only one setting marks lose or gain their references, and the array
    keeps its own. -/
theorem parse_sameTexts_otherMarked :
    firstMarked.SameTexts otherMarked ∧
      ∃ file other, markedText.parse ⟨firstMarked, fun _ => none⟩ = .ok file ∧
        markedText.parse ⟨otherMarked, fun _ => none⟩ = .ok other ∧
        file.blocks.map (fun block => block.references.map VariableReference.name) =
          [[], ["b".toList], ["c".toList]] ∧
        other.blocks.map (fun block => block.references.map VariableReference.name) =
          [["a".toList], ["b".toList], []] ∧
        file.outside = other.outside ∧
        List.Forall₂ (Block.SameButForMarks firstMarked otherMarked) file.blocks other.blocks := by
  have same : firstMarked.SameTexts otherMarked := by
    refine ⟨?_, by decide, by decide⟩
    intro name
    simp only [firstMarked, otherMarked, List.mem_cons, List.not_mem_nil, or_false]
    tauto
  obtain ⟨file, parsed, names⟩ : ∃ file,
      markedText.parse ⟨firstMarked, fun _ => none⟩ = .ok file ∧
        file.blocks.map (fun block => block.references.map VariableReference.name) =
          [[], ["b".toList], ["c".toList]] := ⟨_, rfl, rfl⟩
  obtain ⟨other, otherParsed, otherNames⟩ : ∃ other,
      markedText.parse ⟨otherMarked, fun _ => none⟩ = .ok other ∧
        other.blocks.map (fun block => block.references.map VariableReference.name) =
          [["a".toList], ["b".toList], []] := ⟨_, rfl, rfl⟩
  obtain ⟨outside, blocks, _⟩ := parse_sameTexts _ _ _ _ same parsed otherParsed
  exact ⟨same, file, other, parsed, otherParsed, names, otherNames, outside, blocks⟩

end Document

end BlockMarkup
