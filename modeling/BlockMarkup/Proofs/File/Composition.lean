import BlockMarkup.Proofs.File.Outside
import BlockMarkup.Proofs.File.Tiling

/-!
# Texts one after another

A text that ends with a break can be followed by any other text. The lines of
the first stay what they are; its last line, which is empty, gives way to the
first line of the second.

The two scans, of the first text alone and of both together, agree as long as
blocks are closed before the end of the first text, since no closing line is
empty. They part where a block is still open there. Up to that place the longer
scan has reported the same blocks and the same text, so later text never
disturbs earlier blocks. If they never part, the longer scan goes on with the
second text as if it stood alone.
-/

namespace BlockMarkup

namespace Document

variable {reading : Reading}

/-! ## Two documents with the same lines in front -/

section Front

variable {outer inner : Document} {front : List Line} (placed : outer.lines = front ++ inner.lines)

include placed

/-- The line after those in front is there, since no document is without lines. -/
theorem startOfLine_of_front {index : Nat} (bound : index ≤ front.length) :
    outer.startOfLine index = ⟨index, 0⟩ := by
  have counts := lineCount_of_placed placed
  have some := inner.lineCount_pos
  exact if_pos (by omega)

variable {other behind : Document} (otherPlaced : other.lines = front ++ behind.lines)

include otherPlaced

/-- Documents with the same lines in front agree up to each of these. -/
theorem agreesTo_of_front {index : Nat} (before : index < front.length) :
    outer.AgreesTo other index := by
  constructor
  · rw [placed, otherPlaced, List.take_append_of_le_length (Nat.le_of_lt before),
      List.take_append_of_le_length (Nat.le_of_lt before)]
  · rw [placed, otherPlaced, List.getElem?_append_left before, List.getElem?_append_left before]

/-- Up to the start of a line in front they have the same text. -/
theorem textIn_of_front {index : Nat} (bound : index ≤ front.length) (start : Position) :
    outer.textIn ⟨start, ⟨index, 0⟩⟩ = other.textIn ⟨start, ⟨index, 0⟩⟩ := by
  have counts := lineCount_of_placed placed
  have otherCounts := lineCount_of_placed otherPlaced
  have shared : outer.lines.take index = other.lines.take index := by
    rw [placed, otherPlaced, List.take_append_of_le_length bound,
      List.take_append_of_le_length bound]
  apply textIn_eq_of_take shared
  · omega
  · omega
  · exact Position.le_iff.mpr (Or.inr ⟨rfl, Nat.le_refl 0⟩)

end Front

/-! ## A text alone and with another behind it -/

section Cut

variable {cut whole behind : Document} {front : List Line}
  (short : cut.lines = front ++ (ofText []).lines) (long : whole.lines = front ++ behind.lines)

include short

/-- A part that is cut off behind whole lines ends at the start of a line. -/
theorem endPosition_cut : cut.endPosition = ⟨front.length, 0⟩ := by
  have empty : (ofText []).endPosition = ⟨0, 0⟩ := rfl
  rw [endPosition_of_placed short, empty, Position.mapLines_mk, Nat.zero_add]

/-- The line after the last break is empty, so it closes no block. -/
theorem closingLine_lt_front {firstLine : Nat} {kind : ContentKind} {closed : Closed BlockContent}
    (ended : Block.readContent cut firstLine kind = .ok (.ok closed)) :
    closed.closingLine < front.length := by
  have present := (Block.readContent_closingLine ended).2
  have filled := (Block.readContent_local ended).1
  rw [lineCount_of_placed short] at present
  have single : (ofText []).lineCount = 1 := rfl
  have notLast : closed.closingLine ≠ front.length := by
    intro last
    have empty : cut.lines[closed.closingLine]? = some ⟨[], none⟩ := by
      rw [last, short, List.getElem?_append_right (Nat.le_refl _), Nat.sub_self]
      rfl
    exact filled _ empty rfl
  omega

include long

variable (cutFits : cut.size < wordLimit) (wholeFits : whole.size < wordLimit)

include cutFits wholeFits

/-- A block of the text alone is closed in front of the other text, and is the
    same with it. -/
theorem read_whole {header : BlockHeader} {block : Block}
    (found : Block.read reading cut header = .ok (.ok block)) :
    block.closingLine < front.length ∧ Block.read reading whole header = .ok (.ok block) := by
  have before := closingLine_lt_front short (Block.reads_of_read found).content
  exact ⟨before, Block.read_of_agrees cutFits wholeFits found (agreesTo_of_front short long before)⟩

/-- What a header reads in the longer text it reads in the text alone, or it is
    never closed there. -/
theorem read_cut {header : BlockHeader} {result : Except Unclosed Block}
    (found : Block.read reading whole header = .ok result) :
    (∃ cause, Block.read reading cut header = .ok (.error cause)) ∨
      ∃ block, result = .ok block ∧ block.closingLine < front.length ∧
        Block.read reading cut header = .ok (.ok block) := by
  have word := Block.word_of_read found
  obtain ⟨outcome, ended⟩ := Block.readContent_accepted cut (header.line + 1)
    (reading.settings.classify header.name header.bracket)
  cases outcome with
  | error cause => exact Or.inl ⟨cause, Block.read_of_unclosed word ended⟩
  | ok closed =>
    right
    have before := closingLine_lt_front short ended
    have agrees := agreesTo_of_front short long before
    have wholeEnded := (Block.readContent_local ended).2 whole agrees
    have references := Block.read_of_closed word wholeEnded (whole.contentRange_eq _ _)
    rw [found] at references
    obtain ⟨found', _, rfl⟩ := Checked.map_eq_ok_iff.mp references.symm
    exact ⟨_, rfl, before, Block.read_of_agrees wholeFits cutFits found agrees.symm⟩

/-! ## Later text never disturbs earlier blocks -/

omit short long cutFits wholeFits in
/-- Lists that begin alike, but for the last element of one, begin alike behind
    the same elements. -/
theorem dropLast_append_isPrefix {α : Type} (same : List α) {first second : List α}
    (begins : first.dropLast <+: second) : (same ++ first).dropLast <+: same ++ second := by
  by_cases empty : first = []
  · rw [empty, List.append_nil]
    exact (List.dropLast_prefix same).trans (List.prefix_append same second)
  · rw [List.dropLast_append_of_ne_nil empty]
    exact (List.prefix_append_right_inj same).mpr begins

/-- The scan of the text alone goes with that of the longer text until a block is
    open at its end. The induction is on the lines that are left of the text. -/
theorem scanLines_cut {lines more : List Text} {index inside : Nat} {start : Position} {scan : Scan}
    (reaches : index + lines.length = front.length) (within : inside ≤ lines.length)
    (scanned : scanLines reading whole (lines ++ more) index inside start = .ok scan) :
    ∃ earlier, scanLines reading cut (lines ++ [[]]) index inside start = .ok earlier ∧
      earlier.blocks <+: scan.blocks ∧ earlier.outside.dropLast <+: scan.outside := by
  induction lines generalizing index inside start scan with
  | nil =>
    obtain rfl : inside = 0 := Nat.le_zero.mp within
    have none : BlockHeader.ofLine? [] index = none := rfl
    rw [List.nil_append, scanLines_pass _ _ none, scanLines_nil]
    refine ⟨_, rfl, List.nil_prefix, ?_⟩
    rw [dropLast_gap]
    exact List.nil_prefix
  | cons content rest hypothesis =>
    simp only [List.length_cons] at reaches within
    cases inside with
    | succ inside => exact hypothesis (by omega) (by omega) scanned
    | zero =>
      have bound : index ≤ front.length := by omega
      have before := gap_congr (textIn_of_front short long bound start)
      -- With a block that is never closed in the text alone, its scan ends here.
      have parted {header : BlockHeader} {cause : Unclosed} {blocks : List Block}
          {later : List PlainText} (opened : BlockHeader.ofLine? content index = some header)
          (unclosed : Block.read reading cut header = .ok (.error cause)) :
          ∃ earlier, scanLines reading cut (content :: rest ++ [[]]) index 0 start = .ok earlier ∧
            earlier.blocks <+: blocks ∧
            earlier.outside.dropLast <+: whole.gap start ⟨index, 0⟩ ++ later := by
        rw [List.cons_append, scanLines_unclosed _ _ opened unclosed]
        refine ⟨_, rfl, List.nil_prefix, ?_⟩
        rw [before]
        apply dropLast_append_isPrefix
        rw [dropLast_gap]
        exact List.nil_prefix
      rcases scanLines_step scanned with ⟨none, continued⟩ |
        ⟨header, reported, block, later, opened, made, read, continued, rfl⟩ |
        ⟨header, reported, cause, after, opened, made, read, ended, rfl⟩
      · rw [List.cons_append, scanLines_pass _ _ none]
        exact hypothesis (by omega) (by omega) continued
      · rw [outsideText_eq] at made
        cases made
        rcases read_cut short long cutFits wholeFits read with
          ⟨cause, unclosed⟩ | ⟨same, isBlock, closing, cutRead⟩
        · exact parted opened unclosed
        · cases isBlock
          rw [startOfLine_of_front long (by omega), ← startOfLine_of_front short (by omega)]
            at continued
          obtain ⟨earlier, cutScanned, blocks, outside⟩ :=
            hypothesis (by omega) (by omega) continued
          rw [List.cons_append, scanLines_block _ _ opened cutRead, cutScanned, before]
          refine ⟨_, rfl, ?_, ?_⟩
          · exact List.cons_prefix_cons.mpr ⟨rfl, blocks⟩
          · exact dropLast_append_isPrefix _ outside
      · rw [outsideText_eq] at made
        cases made
        rcases read_cut short long cutFits wholeFits read with
          ⟨cutCause, unclosed⟩ | ⟨same, isBlock, _⟩
        · exact parted opened unclosed
        · cases isBlock

/-! ## Going on with the second text -/

/-- If no block is open at the end of the text alone, the scan of the longer text
    goes on behind it. The text outside of blocks is made up of the same text,
    in other pieces. -/
theorem scanLines_whole {lines more : List Text} {index inside pending : Nat} {earlier later : Scan}
    (reaches : index + lines.length = front.length) (within : inside ≤ lines.length)
    (reached : pending ≤ index + inside)
    (scanned : scanLines reading cut (lines ++ [[]]) index inside ⟨pending, 0⟩ = .ok earlier)
    (terminated : earlier.unterminated = none)
    (continues : scanLines reading whole more front.length 0 ⟨front.length, 0⟩ = .ok later) :
    ∃ scan, scanLines reading whole (lines ++ more) index inside ⟨pending, 0⟩ = .ok scan ∧
      scan.blocks = earlier.blocks ++ later.blocks ∧
      scan.outside.flatMap PlainText.text =
        earlier.outside.flatMap PlainText.text ++ later.outside.flatMap PlainText.text := by
  induction lines generalizing index inside pending earlier with
  | nil =>
    obtain rfl : inside = 0 := Nat.le_zero.mp within
    obtain rfl : index = front.length := reaches
    have none : BlockHeader.ofLine? [] front.length = none := rfl
    rw [List.nil_append, scanLines_pass _ _ none, scanLines_nil, endPosition_cut short] at scanned
    cases scanned
    have counts := lineCount_of_placed long
    have some := behind.lineCount_pos
    have toEnd := whole.startOfLine_le_endPosition front.length
    rw [startOfLine_of_front long (Nat.le_refl _)] at toEnd
    have notAfter : (⟨pending, 0⟩ : Position) ≤ ⟨front.length, 0⟩ := by
      rw [Position.le_iff]
      simp only
      omega
    obtain ⟨scan, wholeScanned, blocks, outside⟩ := scanLines_start notAfter
      (Position.le_iff.mpr (Or.inr ⟨rfl, Nat.le_refl 0⟩)) toEnd continues
    refine ⟨scan, wholeScanned, blocks, ?_⟩
    rw [outside, flatMap_text_gap, textIn_of_front short long (Nat.le_refl _)]
  | cons content rest hypothesis =>
    simp only [List.length_cons] at reaches within
    cases inside with
    | succ inside => exact hypothesis (by omega) (by omega) (by omega) scanned terminated
    | zero =>
      have bound : index ≤ front.length := by omega
      rcases scanLines_step scanned with ⟨none, continued⟩ |
        ⟨header, reported, block, next, opened, made, read, continued, rfl⟩ |
        ⟨header, reported, cause, after, opened, made, read, ended, rfl⟩
      · rw [List.cons_append, scanLines_pass _ _ none]
        exact hypothesis (by omega) (by omega) (by omega) continued terminated
      · rw [outsideText_eq] at made
        cases made
        obtain ⟨closing, wholeRead⟩ := read_whole short long cutFits wholeFits read
        rw [startOfLine_of_front short (by omega)] at continued
        obtain ⟨scan, wholeScanned, blocks, outside⟩ :=
          hypothesis (by omega) (by omega) (by omega) continued terminated
        rw [List.cons_append, scanLines_block _ _ opened wholeRead,
          startOfLine_of_front long (by omega), wholeScanned]
        refine ⟨_, rfl, ?_, ?_⟩
        · simp only [Scan.cons, blocks, List.cons_append]
        · simp only [Scan.cons, List.flatMap_append, outside, flatMap_text_gap, List.append_assoc,
            textIn_of_front short long bound]
      · cases terminated

end Cut

/-! ## Blocks that are never closed -/

/-- The header of a block that is never closed stands behind all blocks. -/
theorem header_of_unterminated {document : Document} {lines : List Text} {index inside : Nat}
    {start : Position} {scan : Scan}
    (scanned : scanLines reading document lines index inside start = .ok scan)
    {header : BlockHeader} {cause : Unclosed} (left : scan.unterminated = some (header, cause)) :
    ∃ count content, lines[count]? = some content ∧ inside ≤ count ∧
      BlockHeader.ofLine? content (index + count) = some header ∧
      ∀ block ∈ scan.blocks, block.closingLine < index + count := by
  induction lines generalizing index inside start scan with
  | nil =>
    rw [scanLines_nil] at scanned
    cases scanned
    cases left
  | cons content rest hypothesis =>
    -- What is found among the other lines is one line further from here.
    have later {inside : Nat} {start : Position} {scan : Scan}
        (scanned : scanLines reading document rest (index + 1) inside start = .ok scan)
        (left : scan.unterminated = some (header, cause)) :
        ∃ count found, (content :: rest)[count]? = some found ∧ inside + 1 ≤ count ∧
          BlockHeader.ofLine? found (index + count) = some header ∧
          ∀ block ∈ scan.blocks, block.closingLine < index + count := by
      obtain ⟨count, found, present, behind, opened, closed⟩ := hypothesis scanned left
      rw [Nat.add_right_comm] at opened closed
      exact ⟨count + 1, found, present, Nat.succ_le_succ behind, opened, closed⟩
    cases inside with
    | succ inside => exact later scanned left
    | zero =>
      rcases scanLines_step scanned with ⟨_, continued⟩ |
        ⟨_, _, block, next, _, _, _, continued, rfl⟩ |
        ⟨_, _, _, _, opened, _, _, _, rfl⟩
      · obtain ⟨count, found, present, _, opened, closed⟩ := later continued left
        exact ⟨count, found, present, Nat.zero_le _, opened, closed⟩
      · obtain ⟨count, found, present, behind, opened, closed⟩ := later continued left
        refine ⟨count, found, present, Nat.zero_le _, opened, ?_⟩
        intro other member
        rcases List.mem_cons.mp member with rfl | inLater
        · omega
        · exact closed other inLater
      · cases left
        refine ⟨0, content, rfl, Nat.le_refl 0, opened, ?_⟩
        intro block member
        cases member

end Document

/-- Whether every header line of a document is a line of a block of the file, so
    that none opens a block that is never closed. -/
def ParsedFile.CoversHeaders (file : ParsedFile) (document : Document) : Prop :=
  ∀ entry ∈ document.lines.zipIdx, BlockHeader.ofLine? entry.1.content entry.2 ≠ none →
    ∃ block ∈ file.blocks, block.headerLine ≤ entry.2 ∧ entry.2 ≤ block.closingLine

/-- Whether blocks cover the headers of a document can be decided line by line. -/
instance (file : ParsedFile) (document : Document) : Decidable (file.CoversHeaders document) :=
  inferInstanceAs (Decidable (∀ entry ∈ document.lines.zipIdx,
    BlockHeader.ofLine? entry.1.content entry.2 ≠ none →
      ∃ block ∈ file.blocks, block.headerLine ≤ entry.2 ∧ entry.2 ≤ block.closingLine))

/-- If every header is a line of a block, no block is left open. -/
theorem ParsedFile.CoversHeaders.unterminated_eq_none {reading : Reading} {document : Document}
    {scan : Scan} (covers : scan.file.CoversHeaders document)
    (scanned : document.scan reading = .ok scan) : scan.unterminated = none := by
  cases left : scan.unterminated with
  | none => rfl
  | some open? =>
    obtain ⟨header, cause⟩ := open?
    obtain ⟨index, content, present, _, opened, closed⟩ :=
      Document.header_of_unterminated scanned left
    rw [Nat.zero_add] at opened closed
    rw [Document.contentsFrom, List.drop_zero, List.getElem?_map] at present
    obtain ⟨line, there, rfl⟩ := Option.map_eq_some_iff.mp present
    have entry : (line, index) ∈ document.lines.zipIdx :=
      List.mk_mem_zipIdx_iff_getElem?.mpr there
    have isHeader : BlockHeader.ofLine? line.content index ≠ none := by
      rw [opened]
      exact Option.some_ne_none header
    obtain ⟨block, member, _, inside⟩ := covers _ entry isHeader
    have before := closed block member
    simp only at inside
    omega

namespace Document

/-! ## The file of two texts -/

/-- A text that ends with a break, alone and with another behind it, as documents
    with the same lines in front. -/
theorem exists_front_of_ended {earlier : Text}
    (ended : earlier = [] ∨ earlier.getLast? = some '\n') (later : Text) :
    ∃ front, (ofText earlier).lines = front ++ (ofText []).lines ∧
      (ofText (earlier ++ later)).lines = front ++ (ofText later).lines := by
  obtain ⟨front, whole, rfl⟩ := Line.exists_whole_of_ended ended
  refine ⟨front, ?_, lines_ofText_joined_append whole later⟩
  have alone := lines_ofText_joined_append whole []
  rwa [List.append_nil] at alone

/-- A text that is small enough with another behind it is so alone. -/
theorem size_ofText_lt_of_append {earlier later : Text}
    (fits : Text.size (earlier ++ later) < wordLimit) : (ofText earlier).size < wordLimit := by
  rw [Text.size_append] at fits
  exact Nat.lt_of_le_of_lt (Nat.le_add_right _ _) fits

/-- All the lines are those in front, then those of the part. -/
theorem contentsFrom_zero_of_placed {outer inner : Document} {front : List Line}
    (placed : outer.lines = front ++ inner.lines) :
    outer.contentsFrom 0 = front.map Line.content ++ inner.contentsFrom 0 := by
  simp [contentsFrom, placed]

/-- Reads one script, with a call in it. -/
def oneCallReading : Reading where
  settings := ⟨["s".toList], ["s".toList]⟩
  reader source :=
    if source = " bru.getVar('v')".toList then
      some ⟨[⟨"bru".toList, "getVar".toList, ⟨1, 16⟩, some (.literal ⟨12, 15⟩ ⟨13, 14⟩)⟩], false⟩
    else none

/-- Text that is put behind a text that ends with a break leaves the blocks of
    that text as they are, and the text outside of them up to the last piece.
    The text may end inside of a block that is closed only by what is put
    behind. The scripts of the longer text are read without a fault, and so are
    then those of the text alone. -/
theorem blocks_of_later_text (reading : Reading) (earlier later : Text)
    (ended : earlier = [] ∨ earlier.getLast? = some '\n')
    (fits : Text.size (earlier ++ later) < wordLimit) {file : ParsedFile}
    (parsed : (ofText (earlier ++ later)).parse reading = .ok file) :
    ∃ before, (ofText earlier).parse reading = .ok before ∧ before.blocks <+: file.blocks ∧
      before.outside.dropLast <+: file.outside := by
  obtain ⟨front, short, long⟩ := exists_front_of_ended ended later
  obtain ⟨scan, scanned, rfl⟩ := parse_eq_ok_iff.mp parsed
  have cutFits := size_ofText_lt_of_append fits
  rw [Document.scan, contentsFrom_zero_of_placed long] at scanned
  obtain ⟨before, cutScanned, blocks, outside⟩ := scanLines_cut short long cutFits fits
    (by simp) (Nat.zero_le _) scanned
  have alone : (ofText earlier).scan reading = .ok before := by
    rw [Document.scan, contentsFrom_zero_of_placed short]
    exact cutScanned
  exact ⟨before.file, parse_eq_ok_iff.mpr ⟨before, alone, rfl⟩, blocks, outside⟩

/-- An array, and a script that is not closed. -/
def scriptLeftOpen : Text := "x\r\ntags [\n a\n]\r\n\ns \x7b\n bru.getVar('v')\n".toList

/-- The script is closed by the later text, which has another array. -/
theorem blocks_of_later_text_closing_script :
    ∃ before file,
      (ofText scriptLeftOpen).parse oneCallReading = .ok before ∧
      (ofText (scriptLeftOpen ++ "\x7d\ntags [\n]".toList)).parse oneCallReading = .ok file ∧
      before.blocks.length = 1 ∧ before.outside.length = 3 ∧ file.blocks.length = 3 ∧
      before.blocks <+: file.blocks ∧ before.outside.dropLast <+: file.outside := by
  obtain ⟨file, parsed, three⟩ : ∃ file,
      (ofText (scriptLeftOpen ++ "\x7d\ntags [\n]".toList)).parse oneCallReading = .ok file ∧
        file.blocks.length = 3 := ⟨_, rfl, rfl⟩
  obtain ⟨before, alone, blocks, outside⟩ :=
    blocks_of_later_text oneCallReading _ _ (by decide) (by decide) parsed
  have counts : ((ofText scriptLeftOpen).parse oneCallReading).toOption.map
      (fun file => (file.blocks.length, file.outside.length)) = some (1, 3) := by decide +kernel
  rw [alone] at counts
  obtain ⟨one, gaps⟩ := Prod.mk.inj (Option.some.inj counts)
  exact ⟨before, file, alone, parsed, one, gaps, three, blocks, outside⟩

/-- The file of two texts, the first of which ends with a break and leaves no
    block open, has the blocks of the first and then those of the second, these
    moved down by the lines of the first. The text outside of blocks is that of
    the first and then that of the second. -/
theorem parse_append (reading : Reading) (earlier later : Text)
    (ended : earlier = [] ∨ earlier.getLast? = some '\n')
    (fits : Text.size (earlier ++ later) < wordLimit) {first second : ParsedFile}
    (parsedFirst : (ofText earlier).parse reading = .ok first)
    (parsedSecond : (ofText later).parse reading = .ok second)
    (covers : first.CoversHeaders (ofText earlier)) :
    ∃ file, (ofText (earlier ++ later)).parse reading = .ok file ∧
      file.blocks = first.blocks ++
        second.blocks.map (Block.mapLines (· + ((ofText earlier).lineCount - 1))) ∧
      file.outside.flatMap PlainText.text =
        first.outside.flatMap PlainText.text ++ second.outside.flatMap PlainText.text := by
  obtain ⟨front, short, long⟩ := exists_front_of_ended ended later
  obtain ⟨firstScan, firstScanned, rfl⟩ := parse_eq_ok_iff.mp parsedFirst
  obtain ⟨secondScan, secondScanned, rfl⟩ := parse_eq_ok_iff.mp parsedSecond
  have terminated := covers.unterminated_eq_none firstScanned
  have cutFits := size_ofText_lt_of_append fits
  have counted : (ofText earlier).lineCount - 1 = front.length := by
    rw [lineCount_of_placed short]
    exact Nat.add_sub_cancel_left 1 front.length
  have moved := scan_of_placed long reading fits
  rw [secondScanned] at moved
  rw [Document.scan, contentsFrom_zero_of_placed short] at firstScanned
  obtain ⟨scan, scanned, blocks, outside⟩ := scanLines_whole short long cutFits fits
    (by simp) (Nat.zero_le _) (Nat.le_refl 0) firstScanned terminated moved
  have together : (ofText (earlier ++ later)).scan reading = .ok scan := by
    rw [Document.scan, contentsFrom_zero_of_placed long]
    exact scanned
  refine ⟨scan.file, parse_eq_ok_iff.mpr ⟨scan, together, rfl⟩, ?_, ?_⟩
  · rw [counted]
    exact blocks
  · rw [Scan.mapLines, List.flatMap_map] at outside
    exact outside

/-- A dictionary with text around it. -/
def dictionaryInText : Text := "x\r\nm \x7b\r\n k: \x7b\x7bw\x7d\x7d\r\n\x7d\ny\n".toList

/-- A script behind text. -/
def scriptBehindText : Text := "z\ns \x7b\n bru.getVar('v')\n\x7d".toList

/-- A script behind a text with a dictionary keeps its call, five lines further on. -/
theorem parse_append_script_behind_text :
    ∃ first second file,
      (ofText dictionaryInText).parse oneCallReading = .ok first ∧
      (ofText scriptBehindText).parse oneCallReading = .ok second ∧
      first.CoversHeaders (ofText dictionaryInText) ∧
      (ofText (dictionaryInText ++ scriptBehindText)).parse oneCallReading = .ok file ∧
      second.blocks.flatMap Block.references =
        [⟨['v'], ⟨⟨2, 13⟩, ⟨2, 14⟩⟩, .read, .runtime⟩] ∧
      file.blocks = first.blocks ++ second.blocks.map (Block.mapLines (· + 5)) ∧
      file.outside.flatMap PlainText.text =
        first.outside.flatMap PlainText.text ++ second.outside.flatMap PlainText.text := by
  obtain ⟨first, parsedFirst, covers⟩ : ∃ first : ParsedFile,
      (ofText dictionaryInText).parse oneCallReading = .ok first ∧
      first.CoversHeaders (ofText dictionaryInText) := ⟨_, rfl, by decide +kernel⟩
  obtain ⟨second, parsedSecond, call⟩ : ∃ second : ParsedFile,
      (ofText scriptBehindText).parse oneCallReading = .ok second ∧
      second.blocks.flatMap Block.references =
        [⟨['v'], ⟨⟨2, 13⟩, ⟨2, 14⟩⟩, .read, .runtime⟩] := ⟨_, rfl, rfl⟩
  obtain ⟨file, parsed, blocks, outside⟩ := parse_append oneCallReading _ _ (by decide) (by decide)
    parsedFirst parsedSecond covers
  exact ⟨first, second, file, parsedFirst, parsedSecond, covers, parsed, call, blocks, outside⟩

end Document

end BlockMarkup
