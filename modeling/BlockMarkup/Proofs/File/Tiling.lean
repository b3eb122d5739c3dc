import BlockMarkup.Proofs.Document.Slice
import BlockMarkup.Proofs.File.Scanning

/-!
# A file covers its document

The pieces of a file are its blocks and the texts outside of them. A piece has a
span of the document: that of a text is given by its range, and a block takes
its lines with the break after the last of them. In the order of their starts
the spans follow one another from the start of the document to its end, and
none is empty, so the texts of the pieces make up the text of the document.

The scan keeps this going: what it has not yet reported begins at the start of a
line, and whatever it then finds, it reports what lies between as a text.
-/

namespace BlockMarkup

/-- Whether spans follow one another from one offset to another without a gap,
    an overlap or an empty span. -/
def Tiles : Nat → Nat → List Span → Prop
  | start, stop, [] => start = stop
  | start, stop, span :: rest =>
    span.start = start ∧ span.start < span.stop ∧ Tiles span.stop stop rest

/-- A piece of a file. -/
inductive Piece where
  | outside (plain : PlainText)
  | block (found : Block)

namespace Piece

/-- The part of the document that a piece takes. A block takes the break after
    its closing line too. -/
def span (document : Document) : Piece → Span
  | .outside plain => ⟨document.offsetOf plain.range.start, document.offsetOf plain.range.stop⟩
  | .block found =>
    ⟨document.offsetOf found.range.start,
      if found.closingLine + 1 < document.lineCount then
        document.offsetOf ⟨found.closingLine + 1, 0⟩
      else document.size⟩

/-- What a piece says: the text that is reported, or the source of a block. -/
def text (document : Document) : Piece → Text
  | .outside plain => plain.text
  | .block found =>
    Text.between document.text (span document (.block found)).start
      (span document (.block found)).stop

end Piece

namespace ParsedFile

/-- The texts outside of blocks, then the blocks. -/
def piecesByKind (file : ParsedFile) : List Piece :=
  file.outside.map .outside ++ file.blocks.map .block

/-- The pieces of a file in the order of their starts. -/
def pieces (file : ParsedFile) (document : Document) : List Piece :=
  file.piecesByKind.mergeSort fun a b => (a.span document).start ≤ (b.span document).start

end ParsedFile

/-! ## Tilings -/

namespace Tiles

/-- Spans that tile a stretch go forward. -/
theorem le {start stop : Nat} {spans : List Span} (tiles : Tiles start stop spans) :
    start ≤ stop := by
  induction spans generalizing start with
  | nil => exact Nat.le_of_eq tiles
  | cons span rest hypothesis =>
    obtain ⟨rfl, nonempty, later⟩ := tiles
    exact Nat.le_trans (Nat.le_of_lt nonempty) (hypothesis later)

/-- Two stretches that meet are tiled together. -/
theorem append {start middle stop : Nat} {front back : List Span} (first : Tiles start middle front)
    (second : Tiles middle stop back) : Tiles start stop (front ++ back) := by
  induction front generalizing start with
  | nil =>
    cases first
    exact second
  | cons span rest hypothesis =>
    obtain ⟨rfl, nonempty, later⟩ := first
    exact ⟨rfl, nonempty, hypothesis later⟩

/-- No span starts before the tiling. -/
theorem start_le {start stop : Nat} {spans : List Span} (tiles : Tiles start stop spans)
    {span : Span} (member : span ∈ spans) : start ≤ span.start := by
  induction spans generalizing start with
  | nil => cases member
  | cons first rest hypothesis =>
    obtain ⟨rfl, nonempty, later⟩ := tiles
    rcases List.mem_cons.mp member with rfl | laterMember
    · exact Nat.le_refl _
    · exact Nat.le_trans (Nat.le_of_lt nonempty) (hypothesis later laterMember)

/-- The starts increase strictly. -/
theorem pairwise_start {start stop : Nat} {spans : List Span} (tiles : Tiles start stop spans) :
    spans.Pairwise fun a b => a.start < b.start := by
  induction spans generalizing start with
  | nil => exact List.Pairwise.nil
  | cons span rest hypothesis =>
    obtain ⟨rfl, nonempty, later⟩ := tiles
    refine List.Pairwise.cons ?_ (hypothesis later)
    intro other member
    exact Nat.lt_of_lt_of_le nonempty (later.start_le member)

/-- Only the empty tiling has no length. -/
theorem eq_nil {offset : Nat} {spans : List Span} (tiles : Tiles offset offset spans) :
    spans = [] := by
  cases spans with
  | nil => rfl
  | cons span rest =>
    obtain ⟨rfl, nonempty, later⟩ := tiles
    have back := later.le
    omega

end Tiles

/-- Pieces that are laid out one after another are in the order of their
    starts, so sorting them from any other order gives them back. -/
theorem pieces_eq_of_tiles {document : Document} {file : ParsedFile} {pieces : List Piece}
    {start stop : Nat} (same : pieces.Perm file.piecesByKind)
    (tiles : Tiles start stop (pieces.map (Piece.span document))) :
    file.pieces document = pieces := by
  have strict := List.pairwise_map.mp tiles.pairwise_start
  have sorted : (file.pieces document).Pairwise fun a b =>
      decide ((a.span document).start ≤ (b.span document).start) = true := by
    apply List.pairwise_mergeSort
    · intro a b c
      simp only [decide_eq_true_eq]
      omega
    · intro a b
      simp only [Bool.or_eq_true, decide_eq_true_eq]
      omega
  have permuted : (file.pieces document).Perm pieces :=
    (List.mergeSort_perm _ _).trans same.symm
  -- Pieces with one start are one piece, since the starts increase strictly.
  have separate : ∀ a ∈ pieces, ∀ b ∈ pieces,
      (a.span document).start = (b.span document).start → a = b := by
    intro a memberA b memberB
    apply List.Pairwise.forall_of_forall_of_flip _ _ _ memberA memberB
    · intro piece _ _
      rfl
    · exact strict.imp fun before equal => absurd equal (Nat.ne_of_lt before)
    · exact strict.imp fun before equal => absurd equal (Nat.ne_of_gt before)
  apply List.Perm.eq_of_pairwise _ sorted _ permuted
  · intro a b memberA memberB notAfter notBefore
    simp only [decide_eq_true_eq] at notAfter notBefore
    exact separate a (permuted.mem_iff.mp memberA) b memberB (Nat.le_antisymm notAfter notBefore)
  · apply strict.imp
    intro a b before
    simpa using Nat.le_of_lt before

/-! ## What the scan lays out -/

namespace Document

variable {reading : Reading} {document : Document}

/-- Reporting a text outside of blocks gives at most one piece, which is what
    its range covers. -/
theorem text_of_mem_outsideText {start stop : Position} {reported : List PlainText}
    (accepted : document.outsideText start stop = .ok reported) {plain : PlainText}
    (member : plain ∈ reported) : plain.text = document.textIn plain.range := by
  unfold outsideText at accepted
  split at accepted
  · cases accepted
    cases member
  · obtain ⟨range, _, made⟩ := Checked.bind_eq_ok_iff.mp accepted
    cases made
    split at member
    · cases member
    · cases List.mem_singleton.mp member
      rfl

/-- What is reported of the text between two positions takes all of it. -/
theorem tiles_outsideText {start stop : Position} {reported : List PlainText}
    (ordered : start ≤ stop)
    (accepted : document.outsideText start stop = .ok reported) :
    Tiles (document.offsetOf start) (document.offsetOf stop)
      ((reported.map Piece.outside).map (Piece.span document)) := by
  have sizes := document.offsetOf_add_size_textIn ordered
  unfold outsideText at accepted
  split at accepted
  · next reverse =>
    cases accepted
    exact Nat.le_antisymm (document.offsetOf_le_offsetOf ordered)
      (document.offsetOf_le_offsetOf reverse)
  · obtain ⟨range, ranged, made⟩ := Checked.bind_eq_ok_iff.mp accepted
    obtain ⟨_, rfl⟩ := Range.between_eq_ok_iff.mp ranged
    cases made
    split
    · next empty =>
      have none : Text.size (document.textIn ⟨start, stop⟩) = 0 := by
        rw [Text.size_eq_zero_iff]
        exact List.isEmpty_iff.mp empty
      show document.offsetOf start = document.offsetOf stop
      omega
    · next nonempty =>
      have positive : Text.size (document.textIn ⟨start, stop⟩) ≠ 0 := by
        rw [Ne, Text.size_eq_zero_iff]
        exact fun empty => nonempty (List.isEmpty_iff.mpr empty)
      refine ⟨rfl, ?_, rfl⟩
      show document.offsetOf start < document.offsetOf stop
      omega

/-- The start of a line that is not there stands for the end of the text, as
    does an offset at such a line. -/
theorem offsetOf_startOfLine (document : Document) (index : Nat) :
    document.offsetOf (document.startOfLine index) =
      if index < document.lineCount then document.offsetOf ⟨index, 0⟩ else document.size := by
  unfold startOfLine
  split
  · rfl
  · exact document.offsetOf_endPosition

/-- No line starts behind the end. -/
theorem startOfLine_le_endPosition (document : Document) (index : Nat) :
    document.startOfLine index ≤ document.endPosition := by
  unfold startOfLine
  rw [Position.le_iff]
  split
  · simp only [endPosition]
    omega
  · exact Or.inr ⟨rfl, Nat.le_refl _⟩

/-- A block begins at its header line, ends before the line after its closing
    line, and is not empty. -/
theorem tiles_block {header : BlockHeader} {block : Block}
    (reads : Block.Reads reading document header block) :
    Tiles (document.offsetOf ⟨header.line, 0⟩)
      (document.offsetOf (document.startOfLine (block.closingLine + 1)))
      [Piece.span document (.block block)] := by
  obtain ⟨afterHeader, closed⟩ := Block.readContent_closingLine reads.content
  simp only at afterHeader closed
  have begins : block.range.start = ⟨header.line, 0⟩ := by rw [reads.range]
  refine ⟨?_, ?_, ?_⟩
  · simp only [Piece.span, begins]
  · have closes := document.offsetOf_lineStart_lt afterHeader closed
    simp only [Piece.span, begins]
    split
    · next present => exact document.offsetOf_lineStart_lt (by omega) present
    · exact Nat.lt_of_lt_of_le closes (document.offsetOf_le_size _)
  · exact (document.offsetOf_startOfLine _).symm

/-- Adding what stands before a block and the block itself to the pieces of the
    later scan. -/
theorem perm_piecesByKind_cons {before : List PlainText} {block : Block} {later : Scan}
    {pieces : List Piece} (same : pieces.Perm later.file.piecesByKind) :
    (before.map Piece.outside ++ (.block block :: pieces)).Perm
      (later.cons before block).file.piecesByKind := by
  have moved : (Piece.block block :: later.file.piecesByKind).Perm
      (later.outside.map .outside ++ .block block :: later.blocks.map .block) :=
    List.perm_middle.symm
  have joined :=
    ((same.cons (Piece.block block)).trans moved).append_left (before.map Piece.outside)
  simpa [ParsedFile.piecesByKind, Scan.file, Scan.cons] using joined

/-- What a scan has left to report is laid out by what it reports. What is left
    begins at the start of a line that is not after the line where the scan
    stands, block lines that it still passes over included. -/
theorem scanLines_tiles {lines : List Text} {index inside pending : Nat} {scan : Scan}
    (remaining : lines = document.contentsFrom index) (reached : pending ≤ index + inside)
    (scanned : scanLines reading document lines index inside (document.startOfLine pending) =
      .ok scan) :
    ∃ pieces : List Piece, pieces.Perm scan.file.piecesByKind ∧
      Tiles (document.offsetOf (document.startOfLine pending)) document.size
        (pieces.map (Piece.span document)) := by
  induction lines generalizing index inside pending scan with
  | nil =>
    obtain ⟨outside, reported, made⟩ := Checked.bind_eq_ok_iff.mp scanned
    cases made
    refine ⟨outside.map .outside, by simp [ParsedFile.piecesByKind, Scan.file], ?_⟩
    have laid := tiles_outsideText (document.startOfLine_le_endPosition pending) reported
    rwa [offsetOf_endPosition] at laid
  | cons content rest hypothesis =>
    obtain ⟨⟨line, present, rfl⟩, restEq⟩ := contentsFrom_eq_cons remaining.symm
    cases inside with
    | succ inside => exact hypothesis restEq (by omega) scanned
    | zero =>
      have inDocument : index < document.lineCount := (List.getElem?_eq_some_iff.mp present).1
      have start : document.startOfLine pending = ⟨pending, 0⟩ := if_pos (by omega)
      have ordered : document.startOfLine pending ≤ ⟨index, 0⟩ := by
        rw [start, Position.le_iff]
        simp only
        omega
      rcases scanLines_step scanned with ⟨_, continued⟩ |
        ⟨header, before, block, later, opened, reported, read, continued, rfl⟩ |
        ⟨header, before, cause, after, _, reported, _, ended, rfl⟩
      · exact hypothesis restEq (by omega) continued
      · have reads := Block.reads_of_read read
        have atIndex := BlockHeader.line_of_ofLine? opened
        have afterHeader := (Block.readContent_closingLine reads.content).1
        simp only [atIndex] at afterHeader
        obtain ⟨pieces, same, laidLater⟩ := hypothesis restEq (by omega) continued
        have laidBlock := tiles_block reads
        rw [atIndex] at laidBlock
        refine ⟨before.map .outside ++ (.block block :: pieces), perm_piecesByKind_cons same, ?_⟩
        rw [List.map_append, List.map_cons]
        exact (tiles_outsideText ordered reported).append (laidBlock.append laidLater)
      · refine ⟨(before ++ after).map .outside, by simp [ParsedFile.piecesByKind, Scan.file], ?_⟩
        have laidAfter : Tiles (document.offsetOf ⟨index, 0⟩) document.size
            ((after.map Piece.outside).map (Piece.span document)) := by
          have toEnd := document.startOfLine_le_endPosition index
          rw [startOfLine, if_pos inDocument] at toEnd
          have laid := tiles_outsideText toEnd ended
          rwa [offsetOf_endPosition] at laid
        rw [List.map_append, List.map_append]
        exact (tiles_outsideText ordered reported).append laidAfter

/-- Every text that a scan reports outside of blocks is what its range covers. -/
theorem text_of_mem_outside {lines : List Text} {index inside : Nat} {start : Position}
    {scan : Scan} (scanned : scanLines reading document lines index inside start = .ok scan)
    {plain : PlainText} (member : plain ∈ scan.outside) :
    plain.text = document.textIn plain.range := by
  induction lines generalizing index inside start scan with
  | nil =>
    obtain ⟨outside, reported, made⟩ := Checked.bind_eq_ok_iff.mp scanned
    cases made
    exact text_of_mem_outsideText reported member
  | cons content rest hypothesis =>
    cases inside with
    | succ inside => exact hypothesis scanned member
    | zero =>
      rcases scanLines_step scanned with ⟨_, continued⟩ |
        ⟨header, before, block, later, _, reported, _, continued, rfl⟩ |
        ⟨header, before, cause, after, _, reported, _, ended, rfl⟩
      · exact hypothesis continued member
      · rcases List.mem_append.mp member with here | there
        · exact text_of_mem_outsideText reported here
        · exact hypothesis continued there
      · rcases List.mem_append.mp member with here | there
        · exact text_of_mem_outsideText reported here
        · exact text_of_mem_outsideText ended there

end Document

/-- The text of a piece is what stands in its span, and the span ends at a
    boundary. -/
def Piece.Faithful (document : Document) (piece : Piece) : Prop :=
  piece.text document =
      Text.between document.text (piece.span document).start (piece.span document).stop ∧
    Text.isBoundary document.text (piece.span document).stop = true

/-- Faithful pieces that are laid out from one boundary to another say what
    stands between the two. -/
theorem flatMap_text_of_tiles {document : Document} {pieces : List Piece} {start stop : Nat}
    (tiles : Tiles start stop (pieces.map (Piece.span document)))
    (faithful : ∀ piece ∈ pieces, piece.Faithful document)
    (atStart : Text.isBoundary document.text start = true)
    (atStop : Text.isBoundary document.text stop = true) :
    pieces.flatMap (Piece.text document) = Text.between document.text start stop := by
  induction pieces generalizing start with
  | nil =>
    cases tiles
    simp
  | cons piece rest hypothesis =>
    obtain ⟨rfl, nonempty, later⟩ := tiles
    obtain ⟨stands, boundary⟩ := faithful piece List.mem_cons_self
    have restStands := hypothesis later
      (fun other member => faithful other (List.mem_cons_of_mem piece member)) boundary
    rw [List.flatMap_cons, restStands, stands]
    exact Text.between_append_between atStart boundary atStop (Nat.le_of_lt nonempty) later.le

/-- The pieces of a file are faithful if the texts outside of blocks are what
    their ranges cover. -/
theorem faithful_of_mem_piecesByKind {document : Document} {file : ParsedFile}
    (covered : ∀ plain ∈ file.outside, plain.text = document.textIn plain.range) {piece : Piece}
    (member : piece ∈ file.piecesByKind) : piece.Faithful document := by
  rcases List.mem_append.mp member with outside | inBlocks
  · obtain ⟨plain, present, rfl⟩ := List.mem_map.mp outside
    refine ⟨?_, document.isBoundary_offsetOf _⟩
    exact (covered plain present).trans (document.textIn_eq_between plain.range)
  · obtain ⟨block, _, rfl⟩ := List.mem_map.mp inBlocks
    refine ⟨rfl, ?_⟩
    simp only [Piece.span]
    split
    · exact document.isBoundary_offsetOf _
    · exact (Text.isBoundary_iff _ _).mpr ⟨document.text, [], by simp, rfl⟩

/-- The pieces of a file cover its document once, from the start to the end, and
    none is empty. Each text outside of blocks is what its range covers, and
    the pieces in order are the text of the document. -/
theorem Document.pieces_tile (reading : Reading) (document : Document) (file : ParsedFile)
    (parsed : document.parse reading = .ok file) :
    Tiles 0 document.size ((file.pieces document).map (Piece.span document)) ∧
      (document.text = [] → file.pieces document = []) ∧
      (∀ plain ∈ file.outside, plain.text = document.textIn plain.range) ∧
      (file.pieces document).flatMap (Piece.text document) = document.text := by
  obtain ⟨scan, scanned, made⟩ := Checked.bind_eq_ok_iff.mp parsed
  cases made
  have covered : ∀ plain ∈ scan.file.outside, plain.text = document.textIn plain.range := by
    intro plain member
    exact text_of_mem_outside scanned member
  have begins : Position.origin = document.startOfLine 0 := by
    have some : 0 < document.lineCount := by
      rw [lineCount_eq]
      exact List.length_pos_iff.mpr (Line.split_ne_nil document.text)
    rw [startOfLine, if_pos some]
    rfl
  rw [Document.scan, begins] at scanned
  obtain ⟨pieces, same, tiles⟩ := scanLines_tiles rfl (Nat.le_refl 0) scanned
  rw [← begins, offsetOf_origin] at tiles
  rw [pieces_eq_of_tiles same tiles]
  refine ⟨tiles, ?_, covered, ?_⟩
  · intro empty
    rw [size, empty] at tiles
    exact List.map_eq_nil_iff.mp tiles.eq_nil
  · have whole := flatMap_text_of_tiles tiles
      (fun piece member => faithful_of_mem_piecesByKind covered (same.mem_iff.mp member))
      ((Text.isBoundary_iff _ _).mpr ⟨[], document.text, rfl, rfl⟩)
      ((Text.isBoundary_iff _ _).mpr ⟨document.text, [], by simp, rfl⟩)
    rw [whole]
    exact Text.between_zero_size document.text

/-- Two texts and two blocks, the second of which ends on the last line, with
    breaks of both kinds. -/
theorem Document.pieces_tile_mixed_breaks :
    ∃ (document : Document) (file : ParsedFile),
      document.text = "x\r\nmeta \x7b\n\x7d\r\n \ntags [\n a\n]".toList ∧
      document.parse ⟨⟨[], []⟩, fun _ => none⟩ = .ok file ∧
      file.blocks.length = 2 ∧ file.outside.length = 2 ∧
      Tiles 0 document.size ((file.pieces document).map (Piece.span document)) ∧
      (file.pieces document).flatMap (Piece.text document) = document.text := by
  obtain ⟨file, parsed, blocks, outside⟩ : ∃ file : ParsedFile,
      (ofText "x\r\nmeta \x7b\n\x7d\r\n \ntags [\n a\n]".toList).parse ⟨⟨[], []⟩, fun _ => none⟩ =
        .ok file ∧ file.blocks.length = 2 ∧ file.outside.length = 2 := ⟨_, rfl, rfl, rfl⟩
  obtain ⟨tiles, _, _, whole⟩ := pieces_tile _ _ file parsed
  exact ⟨_, file, rfl, parsed, blocks, outside, tiles, whole⟩

end BlockMarkup
