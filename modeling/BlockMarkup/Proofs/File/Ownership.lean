import BlockMarkup.Proofs.File.Lookup

/-!
# The owner of a position

Every position of a document has one owner, a block or a text outside of blocks.
A block owns all positions of its lines, the end of its closing line included. A
text owns the positions from its start on, but not its stop, where the next block
begins. Only the end of the document may be left without an owner: if no block
closes there, it is the stop of the last text.

What a scan has not yet reported begins at the start of a line. From that line on
it reports one text for each position that is in none of its blocks, and none for
the positions before.
-/

namespace BlockMarkup

/-! ## Texts around a position -/

/-- Two counts of which at most one is one. -/
theorem add_indicators {first second : Prop} [Decidable first] [Decidable second]
    (apart : ¬ (first ∧ second)) :
    (if first then 1 else 0) + (if second then 1 else 0) = if first ∨ second then 1 else 0 := by
  by_cases one : first
  · have other : ¬ second := fun two => apart ⟨one, two⟩
    simp [one, other]
  · simp [one]

namespace Document

variable {reading : Reading} {document : Document}

/-- A document has its last position. -/
theorem hasPosition_endPosition (document : Document) :
    document.HasPosition document.endPosition :=
  hasPosition_lineEnd (Nat.sub_lt document.lineCount_pos Nat.one_pos)

/-- A document has the start of each line, or its end instead. -/
theorem hasPosition_startOfLine (document : Document) (index : Nat) :
    document.HasPosition (document.startOfLine index) := by
  unfold startOfLine
  split
  · next present => exact hasPosition_lineStart present
  · exact document.hasPosition_endPosition

/-- Between two positions that the document gives out there is text, unless they
    are the same. -/
theorem textIn_ne_nil {start stop : Position} (atStart : document.HasPosition start)
    (atStop : document.HasPosition stop) (before : start < stop) :
    document.textIn ⟨start, stop⟩ ≠ [] := by
  intro empty
  have ordered : start ≤ stop := by
    rw [Position.lt_iff] at before
    rw [Position.le_iff]
    omega
  have sizes := document.offsetOf_add_size_textIn ordered
  rw [empty, Text.size_nil, Nat.add_zero] at sizes
  have same : start = stop := by rw [← atStart, ← atStop, sizes]
  rw [same, Position.lt_iff] at before
  omega

/-- The text between two positions is one text around those from the first on,
    and the second is not one of them. -/
theorem countP_gap {start stop : Position} (atStart : document.HasPosition start)
    (atStop : document.HasPosition stop) (p : Position) :
    (document.gap start stop).countP (fun plain => plain.range.contains p) =
      if start ≤ p ∧ p < stop then 1 else 0 := by
  unfold gap
  split
  · next empty =>
    rw [if_neg, List.countP_nil]
    rintro ⟨after, before⟩
    have between : start < stop := by
      rw [Position.le_iff] at after
      rw [Position.lt_iff] at before ⊢
      omega
    exact textIn_ne_nil atStart atStop between (List.isEmpty_iff.mp empty)
  · simp [List.countP_cons, Range.contains]

/-- Every other position of the document comes before its end. -/
theorem lt_endPosition {p : Position} (present : p.line < document.lineCount)
    (column : p.character ≤ document.lengthAt p.line) (notEnd : p ≠ document.endPosition) :
    p < document.endPosition := by
  obtain ⟨line, character⟩ := p
  simp only at present column
  rw [endPosition, Ne, Position.mk.injEq] at notEnd
  rw [Position.lt_iff, endPosition]
  simp only
  rcases Nat.eq_or_lt_of_le (Nat.le_sub_one_of_lt present) with last | before
  · subst last
    omega
  · exact Or.inl before

/-- A position before the end is not before a line exactly if its own line is not. -/
theorem startOfLine_le_iff {p : Position} (inDocument : p < document.endPosition) (index : Nat) :
    document.startOfLine index ≤ p ↔ index ≤ p.line := by
  have some := document.lineCount_pos
  rw [Position.lt_iff, endPosition] at inDocument
  unfold startOfLine
  split
  · rw [Position.le_iff]
    simp only
    omega
  · rw [Position.le_iff, endPosition]
    simp only at inDocument ⊢
    omega

/-- From the start of a line to the start of another there is one text around
    every position of the lines between. -/
theorem countP_gap_toLine {first last : Nat} (ordered : first ≤ last)
    (present : last < document.lineCount) (p : Position) :
    (document.gap ⟨first, 0⟩ ⟨last, 0⟩).countP (fun plain => plain.range.contains p) =
      if first ≤ p.line ∧ p.line < last then 1 else 0 := by
  rw [countP_gap (hasPosition_lineStart (Nat.lt_of_le_of_lt ordered present))
    (hasPosition_lineStart present)]
  have after : (⟨first, 0⟩ : Position) ≤ p ↔ first ≤ p.line := by
    rw [Position.le_iff]
    simp only
    omega
  have before : p < ⟨last, 0⟩ ↔ p.line < last := by
    rw [Position.lt_iff]
    simp only
    omega
  simp only [after, before]

/-! ## What a scan reports around a position -/

/-- Whether a position is left to the texts of a scan that begins at a line: it
    comes before the end of the document, not before that line, and is on no line
    of a block. -/
def LeftToTexts (document : Document) (first : Nat) (blocks : List Block) (p : Position) : Prop :=
  first ≤ p.line ∧ p < document.endPosition ∧ ∀ block ∈ blocks, ¬ block.HasLine p.line

/-- Whether a position is left to the texts is decided block by block. -/
instance (document : Document) (first : Nat) (blocks : List Block) (p : Position) :
    Decidable (document.LeftToTexts first blocks p) :=
  inferInstanceAs (Decidable (_ ∧ _ ∧ ∀ block ∈ blocks, ¬ block.HasLine p.line))

/-- From the start of a line to the end there is one text around what is left
    there without blocks. -/
theorem countP_gap_toEnd (document : Document) (index : Nat) (p : Position) :
    (document.gap (document.startOfLine index) document.endPosition).countP
        (fun plain => plain.range.contains p) =
      if document.LeftToTexts index [] p then 1 else 0 := by
  rw [countP_gap (document.hasPosition_startOfLine index) document.hasPosition_endPosition]
  by_cases inDocument : p < document.endPosition
  · simp [LeftToTexts, startOfLine_le_iff inDocument]
  · simp [LeftToTexts, inDocument]

/-- Without blocks the lines may be divided anywhere. -/
theorem leftToTexts_nil_iff {first index : Nat} (ordered : first ≤ index)
    (present : index < document.lineCount) {p : Position} :
    document.LeftToTexts first [] p ↔
      (first ≤ p.line ∧ p.line < index) ∨ document.LeftToTexts index [] p := by
  have early : p.line < index → p < document.endPosition := by
    intro above
    rw [Position.lt_iff, endPosition]
    simp only
    omega
  constructor
  · rintro ⟨reached, inDocument, none⟩
    by_cases above : p.line < index
    · exact Or.inl ⟨reached, above⟩
    · exact Or.inr ⟨Nat.le_of_not_lt above, inDocument, none⟩
  · rintro (⟨reached, above⟩ | ⟨reached, left⟩)
    · exact ⟨reached, early above, List.forall_mem_nil _⟩
    · exact ⟨Nat.le_trans ordered reached, left⟩

/-- The positions that are left behind a block are those before it and those left
    behind its closing line. -/
theorem leftToTexts_cons_iff {first : Nat} {block : Block} {later : List Block} {p : Position}
    (closing : block.closingLine < document.lineCount)
    (begins : first ≤ block.headerLine) (ends : block.headerLine ≤ block.closingLine)
    (behind : ∀ other ∈ later, block.closingLine + 1 ≤ other.headerLine) :
    document.LeftToTexts first (block :: later) p ↔
      (first ≤ p.line ∧ p.line < block.headerLine) ∨
        document.LeftToTexts (block.closingLine + 1) later p := by
  unfold LeftToTexts
  simp only [List.forall_mem_cons, Block.HasLine]
  constructor
  · rintro ⟨reached, inDocument, outside, none⟩
    by_cases before : p.line < block.headerLine
    · exact Or.inl ⟨reached, before⟩
    · exact Or.inr ⟨by omega, inDocument, none⟩
  · rintro (⟨reached, before⟩ | ⟨reached, inDocument, none⟩)
    · refine ⟨reached, ?_, by omega, ?_⟩
      · rw [Position.lt_iff, endPosition]
        simp only
        omega
      · intro other member
        have after := behind other member
        omega
    · exact ⟨by omega, inDocument, by omega, none⟩

/-- A scan reports one text around each position that is left to its texts, and
    none around the others. The induction is on the lines; what has not been
    reported begins with a line that is not behind the line where the scan
    stands, lines that it still passes over included. -/
theorem countP_outside {lines : List Text} {index inside pending : Nat} {scan : Scan}
    (remaining : lines = document.contentsFrom index) (reached : pending ≤ index + inside)
    (scanned : scanLines reading document lines index inside (document.startOfLine pending) =
      .ok scan) (p : Position) :
    scan.outside.countP (fun plain => plain.range.contains p) =
      if document.LeftToTexts pending scan.blocks p then 1 else 0 := by
  induction lines generalizing index inside pending scan with
  | nil =>
    rw [scanLines_nil] at scanned
    cases scanned
    exact document.countP_gap_toEnd pending p
  | cons content rest hypothesis =>
    obtain ⟨⟨line, present, rfl⟩, restEq⟩ := contentsFrom_eq_cons remaining.symm
    cases inside with
    | succ inside => exact hypothesis restEq (by omega) scanned
    | zero =>
      have inDocument : index < document.lineCount := (List.getElem?_eq_some_iff.mp present).1
      have notBehind : pending ≤ index := by omega
      have start : document.startOfLine pending = ⟨pending, 0⟩ := if_pos (by omega)
      rcases scanLines_step scanned with ⟨_, continued⟩ |
        ⟨header, before, block, later, opened, reported, read, continued, rfl⟩ |
        ⟨header, before, cause, after, _, reported, _, ended, rfl⟩
      · exact hypothesis restEq (by omega) continued
      · have reads := Block.reads_of_read read
        have begins := reads.headerLine_eq.trans (BlockHeader.line_of_ofLine? opened)
        have ends := reads.headerLine_lt
        have closing := (Block.readContent_closingLine reads.content).2
        simp only at closing
        have behind := (accounts_of_scanLines restEq continued).notBefore
        have next : index + 1 + (block.closingLine - index) = block.closingLine + 1 := by omega
        rw [next] at behind
        rw [outsideText_eq, start] at reported
        cases reported
        have left : document.LeftToTexts pending (block :: later.blocks) p ↔ _ :=
          leftToTexts_cons_iff closing (begins ▸ notBehind) (Nat.le_of_lt ends) behind
        rw [begins] at left
        simp only [Scan.cons, List.countP_append, countP_gap_toLine notBehind inDocument,
          hypothesis restEq (by omega) continued, left]
        exact add_indicators (by rintro ⟨⟨_, above⟩, ⟨below, _⟩⟩; omega)
      · rw [outsideText_eq] at reported ended
        rw [start] at reported
        cases reported
        cases ended
        have fromHere : (⟨index, 0⟩ : Position) = document.startOfLine index :=
          (if_pos inDocument).symm
        rw [List.countP_append, countP_gap_toLine notBehind inDocument, fromHere, countP_gap_toEnd,
          add_indicators (by rintro ⟨⟨_, above⟩, ⟨below, _⟩⟩; omega)]
        simp only [leftToTexts_nil_iff notBehind inDocument]

end Document

/-! ## Blocks around a position -/

/-- A block has all positions of its lines. -/
theorem Block.Reads.containsInclusive_iff {reading : Reading} {document : Document}
    {header : BlockHeader} {block : Block} (reads : Block.Reads reading document header block)
    {p : Position} (column : p.character ≤ document.lengthAt p.line) :
    block.range.containsInclusive p = true ↔ block.HasLine p.line := by
  refine ⟨hasLine_of_containsInclusive, ?_⟩
  rintro ⟨begins, ends⟩
  rw [Range.containsInclusive_iff, Position.le_iff, Position.le_iff, reads.range]
  rw [reads.headerLine_eq] at begins
  rcases Nat.eq_or_lt_of_le ends with atEnd | before
  · rw [atEnd] at column
    simp only
    omega
  · simp only
    omega

/-- Of members that exclude one another at most one is counted. -/
theorem countP_le_one_of_pairwise {α : Type} {holds : α → Bool} {members : List α}
    (excluding : members.Pairwise fun one other => holds one = true → ¬ holds other = true) :
    members.countP holds ≤ 1 := by
  induction excluding with
  | nil => exact Nat.zero_le 1
  | @cons one rest others _ hypothesis =>
    by_cases here : holds one = true
    · have none : rest.countP holds = 0 :=
        List.countP_eq_zero.mpr fun other member => others other member here
      exact Nat.le_of_eq (by rw [List.countP_cons_of_pos here, none])
    · rwa [List.countP_cons_of_neg here]

namespace ParsedFile

variable {file : ParsedFile}
  (apart : file.blocks.Pairwise fun earlier later => earlier.closingLine < later.headerLine)

include apart

/-- A position is in at most one block, its last position included. -/
theorem countP_containsInclusive_le_one (p : Position) :
    file.blocks.countP (fun block => block.range.containsInclusive p) ≤ 1 := by
  apply countP_le_one_of_pairwise
  apply apart.imp
  intro earlier later before inEarlier inLater
  have ends := (Block.hasLine_of_containsInclusive inEarlier).2
  have begins := (Block.hasLine_of_containsInclusive inLater).1
  omega

/-- The block at a position is the same in whatever order the blocks are listed. -/
theorem blockAt_eq_of_perm {blocks : List Block} (listed : blocks.Perm file.blocks)
    (p : Position) : (⟨blocks, file.outside⟩ : ParsedFile).blockAt p = file.blockAt p := by
  cases found : (⟨blocks, file.outside⟩ : ParsedFile).blockAt p with
  | none =>
    symm
    apply List.find?_eq_none.mpr
    intro block member
    exact List.find?_eq_none.mp found block (listed.mem_iff.mpr member)
  | some block =>
    have member := listed.mem_iff.mp (List.mem_of_find?_eq_some found)
    have inside := List.find?_some found
    exact (blockAt_eq apart member inside).symm

end ParsedFile

/-- A block is found at a position if one of the blocks has it. -/
theorem ParsedFile.isSome_blockAt_iff {file : ParsedFile} {p : Position} :
    (file.blockAt p).isSome = true ↔
      ∃ block ∈ file.blocks, block.range.containsInclusive p = true := by
  rw [blockAt, List.find?_isSome]

namespace Document

/-- Every position has at most one block around it, whatever the order of the
    blocks. A position of the document other than its end is in a block or in
    just one text outside of blocks, and not in both; the end is in a block
    exactly if a block closes on the last line. -/
theorem owner_of_position (reading : Reading) (document : Document) {file : ParsedFile}
    (parsed : document.parse reading = .ok file) :
    (∀ p, file.blocks.countP (fun block => block.range.containsInclusive p) ≤ 1 ∧
      ∀ blocks : List Block, blocks.Perm file.blocks →
        (⟨blocks, file.outside⟩ : ParsedFile).blockAt p = file.blockAt p) ∧
    (∀ p : Position, p.line < document.lineCount → p.character ≤ document.lengthAt p.line →
      p ≠ document.endPosition →
        ((file.blockAt p).isSome = true ∧
          file.outside.countP (fun plain => plain.range.contains p) = 0) ∨
        (file.blockAt p = none ∧
          file.outside.countP (fun plain => plain.range.contains p) = 1)) ∧
    ((file.blockAt document.endPosition).isSome = true ↔
      ∃ block ∈ file.blocks, block.closingLine = document.lineCount - 1) := by
  obtain ⟨scan, scanned, rfl⟩ := parse_eq_ok_iff.mp parsed
  have account := accounts_of_scanLines rfl scanned
  -- A block is around a position of the document if it has the line.
  have around : ∀ p : Position, p.character ≤ document.lengthAt p.line →
      ((scan.file.blockAt p).isSome = true ↔ ∃ block ∈ scan.blocks, block.HasLine p.line) := by
    intro p column
    rw [ParsedFile.isSome_blockAt_iff]
    apply exists_congr
    intro block
    apply and_congr_right
    intro member
    obtain ⟨header, _, read⟩ := account.read block member
    exact (Block.reads_of_read read).containsInclusive_iff column
  refine ⟨fun p => ⟨ParsedFile.countP_containsInclusive_le_one account.apart p,
    fun blocks listed => ParsedFile.blockAt_eq_of_perm account.apart listed p⟩, ?_, ?_⟩
  · intro p present column notEnd
    have inDocument := lt_endPosition present column notEnd
    have begins : Position.origin = document.startOfLine 0 := by
      rw [startOfLine, if_pos document.lineCount_pos]
      rfl
    rw [Document.scan, begins] at scanned
    have counted := countP_outside rfl (Nat.le_refl 0) scanned p
    by_cases inBlock : ∃ block ∈ scan.blocks, block.HasLine p.line
    · left
      refine ⟨(around p column).mpr inBlock, ?_⟩
      rw [if_neg] at counted
      · exact counted
      · rintro ⟨_, _, none⟩
        obtain ⟨block, member, within⟩ := inBlock
        exact none block member within
    · right
      constructor
      · rw [← Option.not_isSome_iff_eq_none, around p column]
        exact inBlock
      · rw [if_pos] at counted
        · exact counted
        · exact ⟨Nat.zero_le _, inDocument, fun block member within =>
            inBlock ⟨block, member, within⟩⟩
  · rw [around document.endPosition (Nat.le_refl _)]
    apply exists_congr
    intro block
    apply and_congr_right
    intro member
    obtain ⟨header, _, read⟩ := account.read block member
    have reads := Block.reads_of_read read
    have ends := reads.headerLine_lt
    have closing := (Block.readContent_closingLine reads.content).2
    simp only [Block.HasLine, endPosition] at closing ⊢
    omega

/-- A text that ends where a block begins, and a block behind it that closes on the
    last line. -/
def adjacentBlocks : Document :=
  ofText "é\r\nm \x7b\n\x7d\nt [\n]".toList

/-- Between adjacent blocks each position has one owner, and the end belongs to the last
    block. -/
theorem owner_of_position_adjacent :
    ∃ file, adjacentBlocks.parse ⟨.standard, fun _ => none⟩ = .ok file ∧
      (file.blockAt ⟨0, 2⟩ = none ∧
        file.outside.countP (fun plain => plain.range.contains ⟨0, 2⟩) = 1) ∧
      ((file.blockAt ⟨1, 0⟩).isSome = true ∧
        file.outside.countP (fun plain => plain.range.contains ⟨1, 0⟩) = 0) ∧
      file.blocks.countP (fun block => block.range.containsInclusive ⟨2, 1⟩) ≤ 1 ∧
      adjacentBlocks.endPosition = ⟨4, 1⟩ ∧
      (file.blockAt adjacentBlocks.endPosition).isSome = true := by
  have evaluated : (adjacentBlocks.parse ⟨.standard, fun _ => none⟩).toOption.map (fun file =>
      decide (file.blockAt ⟨0, 2⟩ = none ∧ (file.blockAt ⟨1, 0⟩).isSome = true ∧
        ∃ block ∈ file.blocks, block.closingLine = 4)) = some true := by decide +kernel
  cases parsed : adjacentBlocks.parse ⟨.standard, fun _ => none⟩ with
  | error fault =>
    rw [parsed] at evaluated
    cases evaluated
  | ok file =>
    rw [parsed] at evaluated
    obtain ⟨noBlock, aBlock, closed⟩ := of_decide_eq_true (Option.some.inj evaluated)
    obtain ⟨unique, owned, atEnd⟩ := owner_of_position _ _ parsed
    refine ⟨file, rfl, ?_, ?_, (unique ⟨2, 1⟩).1, by decide +kernel, atEnd.mpr closed⟩
    · have owner := owned ⟨0, 2⟩ (by decide +kernel) (by decide +kernel) (by decide +kernel)
      rcases owner with ⟨impossible, _⟩ | outside
      · rw [noBlock] at impossible
        cases impossible
      · exact outside
    · have owner := owned ⟨1, 0⟩ (by decide +kernel) (by decide +kernel) (by decide +kernel)
      rcases owner with inBlock | ⟨impossible, _⟩
      · exact inBlock
      · rw [impossible] at aBlock
        cases aBlock

end Document

end BlockMarkup
