import BlockMarkup.Proofs.Document.SharedLines
import BlockMarkup.Proofs.Guarded.Step

/-!
# Line tables

A line table is what a document is in memory: the text, and for each line the
span of its content. It is filled by going from line feed to line feed and
looking at the byte before each, and everything that a document is asked for is
computed from the spans by guarded steps.

A table of a text that a machine word can measure is filled without a violation,
and it holds the lines of the document. For lines that are there, its answers are
those of the document. The table refuses every other line, also where the
document would take the end of the text in its place.
-/

namespace BlockMarkup

namespace Text

/-! ## Bytes and boundaries -/

/-- The bytes of the UTF-8 form of a text. -/
def bytes (text : Text) : List UInt8 :=
  text.flatMap String.utf8EncodeChar

/-- A text has as many bytes as its size says. -/
theorem length_bytes (text : Text) : (bytes text).length = size text := by
  induction text with
  | nil => rfl
  | cons c rest hypothesis =>
    rw [bytes, List.flatMap_cons, List.length_append, String.length_utf8EncodeChar, ← bytes,
      hypothesis, size_cons]

/-- The last byte of a character tells whether it is a carriage return. -/
theorem getLast?_utf8EncodeChar (c : Char) :
    (String.utf8EncodeChar c).getLast? = some 13 ↔ c = '\r' := by
  have code : c = '\r' ↔ c.val.toNat = 13 := by
    rw [← Char.toNat_inj]
    exact Iff.rfl
  rw [code, String.utf8EncodeChar]
  generalize c.val.toNat = value
  -- A last byte that is not the only one has its highest bit set.
  have high : UInt8.ofNat (value % 64 + 128) ≠ 13 := by
    intro same
    have numbers := congrArg UInt8.toNat same
    simp only [UInt8.toNat_ofNat'] at numbers
    change (value % 64 + 128) % 256 = 13 at numbers
    omega
  split
  · next single =>
    simp only [List.getLast?_singleton, Option.some.injEq]
    constructor
    · intro same
      have numbers := congrArg UInt8.toNat same
      simp only [UInt8.toNat_ofNat'] at numbers
      change value % 256 = 13 at numbers
      omega
    · rintro rfl
      rfl
  · have other : value ≠ 13 := by omega
    split
    · simp only [List.getLast?_cons_cons, List.getLast?_singleton, Option.some.injEq, high, other]
    · split <;> simp only [List.getLast?_cons_cons, List.getLast?_singleton, Option.some.injEq,
        high, other]

/-- The byte before an offset is the last one of the character before it. -/
theorem bytes_getElem?_before (front back : Text) (c : Char) :
    (bytes (front ++ c :: back))[size front + c.utf8Size - 1]? =
      (String.utf8EncodeChar c).getLast? := by
  have positive : 0 < c.utf8Size := c.utf8Size_pos
  have sized := String.length_utf8EncodeChar c
  have place : size front + c.utf8Size - 1 - (bytes front).length =
      (String.utf8EncodeChar c).length - 1 := by
    rw [length_bytes, sized]
    omega
  rw [bytes, List.flatMap_append, List.flatMap_cons, ← bytes,
    List.getElem?_append_right (by rw [length_bytes]; omega), place,
    List.getElem?_append_left (by omega), List.getLast?_eq_getElem?]

/-- The boundary below an offset is that below the offset before, unless it is
    the offset itself. -/
theorem floorBoundary_pred {text : Text} {offset : Nat}
    (inside : isBoundary text offset = false) :
    floorBoundary text (offset - 1) = floorBoundary text offset := by
  have other : floorBoundary text offset ≠ offset := by
    simpa [isBoundary] using inside
  have below := floorBoundary_le text offset
  apply Nat.le_antisymm
  · exact floorBoundary_le_floorBoundary text (Nat.sub_le offset 1)
  · have parted := takeSize_append_dropSize offset text
    have kept := floorBoundary_size (takeSize offset text) (dropSize offset text)
    rw [parted, size_takeSize] at kept
    have earlier : floorBoundary text offset ≤ offset - 1 := by omega
    calc floorBoundary text offset = floorBoundary text (floorBoundary text offset) := kept.symm
      _ ≤ floorBoundary text (offset - 1) := floorBoundary_le_floorBoundary text earlier

/-- The boundary below an offset that is beyond the text is its end. -/
theorem floorBoundary_of_size_le {text : Text} {offset : Nat} (beyond : size text ≤ offset) :
    floorBoundary text offset = size text := by
  apply Nat.le_antisymm (floorBoundary_le_size text offset)
  have reached := floorBoundary_le_floorBoundary text beyond
  rwa [floorBoundary_self] at reached

/-- The offset of the first line feed. -/
def feedOffset? : Text → Option Nat
  | [] => none
  | c :: rest => if c = '\n' then some 0 else (feedOffset? rest).map (c.utf8Size + ·)

/-- In a text without a line feed none is found. -/
theorem feedOffset?_eq_none {text : Text} (noFeed : '\n' ∉ text) : feedOffset? text = none := by
  induction text with
  | nil => rfl
  | cons c rest hypothesis =>
    have other : c ≠ '\n' := fun feed => noFeed (feed ▸ List.mem_cons_self)
    have later := hypothesis fun feed => noFeed (List.mem_cons_of_mem c feed)
    rw [feedOffset?, if_neg other, later]
    rfl

/-- The first line feed is found behind the bytes before it. -/
theorem feedOffset?_append {content : Text} (noFeed : '\n' ∉ content) (rest : Text) :
    feedOffset? (content ++ '\n' :: rest) = some (size content) := by
  induction content with
  | nil => rfl
  | cons c content hypothesis =>
    have other : c ≠ '\n' := fun feed => noFeed (feed ▸ List.mem_cons_self)
    have later := hypothesis fun feed => noFeed (List.mem_cons_of_mem c feed)
    rw [List.cons_append, feedOffset?, if_neg other, later]
    rfl

end Text

namespace Guarded

open Text

/-- The text of a document and the span of the content of each line. -/
structure LineTable where
  text : Text
  spans : List Span
deriving DecidableEq

namespace LineTable

/-! ## Filling a table -/

/-- Where the content of the line from `start` on ends, its line feed being at
    the offset `feed`. A carriage return before the feed is not content. -/
def contentEnd (text : Text) (start feed : Nat) : Guarded Nat :=
  if start < feed then do
    let before ← sub feed 1
    let byte ← get (bytes text) before
    if byte = 13 then sub feed 1 else return feed
  else
    return feed

/-- The spans of the lines so far, and where the next line begins. -/
structure Filling where
  spans : List Span
  start : Nat

/-- Adds the span of the next line. -/
def cutLine (text : Text) (filling : Filling) : Guarded (Next Filling (List Span)) := do
  let rest ← slice text ⟨filling.start, size text⟩
  match feedOffset? rest with
  | none => return .ends (filling.spans ++ [⟨filling.start, size text⟩])
  | some relative =>
    let feed ← add filling.start relative
    let stop ← contentEnd text filling.start feed
    let following ← add feed 1
    return .goesOn ⟨filling.spans ++ [⟨filling.start, stop⟩], following⟩

/-- The table of a text. -/
def ofText (text : Text) : Guarded LineTable := do
  let spans ← loop (cutLine text) (size text + 1) ⟨[], 0⟩
  return ⟨text, spans⟩

/-- The spans of the contents of lines, the first of which begins at `start`. -/
def spansOf : Nat → List Line → List Span
  | _, [] => []
  | start, line :: rest => .ofLength start line.length :: spansOf (start + size line.text) rest

/-- The table of a document. -/
def ofDocument (document : Document) : LineTable :=
  ⟨document.text, spansOf 0 document.lines⟩

/-- The byte before the feed is looked at if the line has any. -/
theorem contentEnd_concat (front kept rest : Text) (last : Char) :
    contentEnd (front ++ (kept ++ [last] ++ '\n' :: rest)) (size front)
        (size front + size (kept ++ [last])) =
      .ok (if last = '\r' then size front + size kept else size front + size (kept ++ [last])) := by
  have positive : 0 < last.utf8Size := last.utf8Size_pos
  have whole : front ++ (kept ++ [last] ++ '\n' :: rest) =
      (front ++ kept) ++ last :: '\n' :: rest := by simp
  have sized : size front + size (kept ++ [last]) = size (front ++ kept) + last.utf8Size := by
    simp only [size_append, size_cons, size_nil]
    omega
  have before := bytes_getElem?_before (front ++ kept) ('\n' :: rest) last
  obtain ⟨byte, present⟩ : ∃ byte, (String.utf8EncodeChar last).getLast? = some byte := by
    apply Option.isSome_iff_exists.mp
    rw [List.getLast?_isSome, ← List.length_pos_iff, String.length_utf8EncodeChar]
    exact positive
  have told := getLast?_utf8EncodeChar last
  rw [present, Option.some.injEq] at told
  rw [contentEnd, whole, sized, if_pos (by rw [size_append]; omega), sub_eq (by omega), ok_bind,
    get_eq (before.trans present), ok_bind]
  by_cases carriage : last = '\r'
  · have one : '\r'.utf8Size = 1 := by decide
    rw [if_pos (told.mpr carriage), if_pos carriage, carriage, size_append, one]
    rfl
  · rw [if_neg (fun byteThere => carriage (told.mp byteThere)), if_neg carriage]
    rfl

/-- What stands before a feed is the content of the line, and the part of the
    break that stands before the feed. -/
theorem contentEnd_eq (front body rest : Text) :
    ∃ (content carriage : Text) (lineBreak : LineBreak), body = content ++ carriage ∧
      lineBreak.text = carriage ++ ['\n'] ∧ ¬ SplitsBreak content lineBreak.text ∧
      contentEnd (front ++ (body ++ '\n' :: rest)) (size front) (size front + size body) =
        .ok (size front + size content) := by
  rcases List.eq_nil_or_concat body with rfl | ⟨kept, last, rfl⟩
  · refine ⟨[], [], .lf, rfl, rfl, not_splitsBreak_nil_left _, ?_⟩
    rw [contentEnd, size_nil, Nat.add_zero, if_neg (Nat.lt_irrefl _)]
    rfl
  · rw [List.concat_eq_append, contentEnd_concat]
    by_cases carriage : last = '\r'
    · refine ⟨kept, ['\r'], .crlf, by rw [carriage], rfl, ?_, by rw [if_pos carriage]⟩
      rintro ⟨_, feed⟩
      cases feed
    · refine ⟨kept ++ [last], [], .lf, by simp, rfl, ?_, by rw [if_neg carriage]⟩
      rintro ⟨ending, _⟩
      apply carriage
      simpa using ending

/-- One round: the rest of the text is the last line, or its first line is added
    and the round after it begins behind that line. -/
theorem cutLine_round {front back : Text} (fits : size (front ++ back) < wordLimit)
    (spans : List Span) :
    cutLine (front ++ back) ⟨spans, size front⟩ =
        .ok (.ends (spans ++ spansOf (size front) (Line.split back))) ∨
      ∃ line rest, back = line.text ++ rest ∧ 0 < size line.text ∧
        Line.split back = line :: Line.split rest ∧
        cutLine (front ++ back) ⟨spans, size front⟩ =
          .ok (.goesOn ⟨spans ++ [.ofLength (size front) line.length],
            size (front ++ line.text)⟩) := by
  have parted : front ++ back = front ++ (back ++ []) := by rw [List.append_nil]
  have remaining : slice (front ++ back) ⟨size front, size (front ++ back)⟩ = .ok back :=
    slice_eq parted rfl (size_append front back)
  by_cases feed : '\n' ∈ back
  · right
    obtain ⟨body, rest, rfl, noFeed⟩ := List.eq_append_cons_of_mem feed
    obtain ⟨content, carriage, lineBreak, rfl, ended, whole, stop⟩ := contentEnd_eq front body rest
    have contentNoFeed : '\n' ∉ content := fun member => noFeed (List.mem_append_left _ member)
    have texts : content ++ carriage ++ '\n' :: rest = content ++ (lineBreak.text ++ rest) := by
      rw [ended]
      simp
    have advance : size front + size (content ++ carriage) + 1 =
        size (front ++ (content ++ lineBreak.text)) := by
      rw [ended]
      simp only [size_append, size_cons, size_nil]
      have one : '\n'.utf8Size = 1 := by decide
      omega
    have bound : size front + size (content ++ carriage) + 1 < wordLimit := by
      rw [advance]
      rw [texts, ← List.append_assoc content, ← List.append_assoc, size_append] at fits
      omega
    have positive := lineBreak.size_text_pos
    refine ⟨⟨content, some lineBreak⟩, rest, ?_, ?_, ?_, ?_⟩
    · rw [texts, ← List.append_assoc]
      rfl
    · simp only [Line.text, Line.breakText, size_append]
      omega
    · rw [texts]
      exact Line.split_content_break contentNoFeed whole rest
    · rw [cutLine, remaining, ok_bind, feedOffset?_append noFeed]
      simp only [add_eq (Nat.lt_of_succ_lt bound), stop, add_eq bound, ok_bind, advance]
      rfl
  · left
    have last : Line.split back = [⟨back, none⟩] := Line.split_of_noFeed feed
    rw [cutLine, remaining, ok_bind, feedOffset?_eq_none feed, last, size_append]
    rfl

/-- A table is filled without a violation, and it is that of the document. The
    loop stands between two lines; its answer is the spans so far and those of the
    lines of the rest. -/
theorem ofText_eq {text : Text} (fits : size text < wordLimit) :
    ofText text = .ok (ofDocument (.ofText text)) := by
  have looped : loop (cutLine text) (size text + 1) ⟨[], 0⟩ =
      .ok ([] ++ spansOf 0 (Line.split (dropSize 0 text))) := by
    apply loop_eq
      (fun filling : Filling => ∃ front back, text = front ++ back ∧ size front = filling.start)
      (fun filling => size text - filling.start)
      (fun filling => filling.spans ++
        spansOf filling.start (Line.split (dropSize filling.start text)))
    · rintro ⟨spans, start⟩ ⟨front, back, rfl, rfl⟩
      simp only [dropSize_size]
      rcases cutLine_round fits spans with ended | ⟨line, rest, rfl, longer, lines, continued⟩
      · exact Or.inl ended
      · refine Or.inr ⟨_, continued, ?_, ⟨front ++ line.text, rest, by simp, rfl⟩, ?_⟩
        · simp only [size_append]
          omega
        · rw [← List.append_assoc, dropSize_size, lines, size_append]
          simp [spansOf]
    · exact Nat.lt_succ_of_le (Nat.sub_le _ _)
    · exact ⟨[], text, rfl, rfl⟩
  rw [ofText, looped, dropSize_zero]
  rfl

/-! ## Asking a table -/

/-- The number of lines. -/
def lineCount (table : LineTable) : Nat :=
  table.spans.length

/-- The number of bytes in a span. -/
def lengthOf (span : Span) : Guarded Nat :=
  sub span.stop span.start

/-- The content of a line. -/
def line (table : LineTable) (index : Nat) : Guarded Text := do
  slice table.text (← get table.spans index)

/-- The length of a line. -/
def lineLength (table : LineTable) (index : Nat) : Guarded Nat := do
  lengthOf (← get table.spans index)

/-- The position right after the last character. -/
def endPosition (table : LineTable) : Guarded Position := do
  let last ← sub table.lineCount 1
  return ⟨last, ← table.lineLength last⟩

/-- One byte down, or the offset itself if it is a boundary. -/
def stepDown (text : Text) (offset : Nat) : Guarded (Next Nat Nat) :=
  if isBoundary text offset then return .ends offset
  else return .goesOn (← sub offset 1)

/-- The largest boundary that is not above the offset. -/
def boundaryBelow (text : Text) (offset : Nat) : Guarded Nat :=
  if size text ≤ offset then return size text
  else loop (stepDown text) (offset + 1) offset

/-- The byte offset of a position. -/
def offsetOf (table : LineTable) (p : Position) : Guarded Nat := do
  let span ← get table.spans p.line
  let content ← slice table.text span
  add span.start (← boundaryBelow content p.character)

/-- The text that a range covers. -/
def textIn (table : LineTable) (range : Range) : Guarded Text := do
  let start ← table.offsetOf range.start
  let stop ← table.offsetOf range.stop
  if stop ≤ start then return [] else slice table.text ⟨start, stop⟩

/-- The position a number of bytes after another, if the text reaches that far
    and the sum is a machine word. -/
def positionAfter (table : LineTable) (start : Position) (offset : Nat) :
    Guarded (Option Position) := do
  let target := (← table.offsetOf start) + offset
  if wordLimit ≤ target then return none
  else if size table.text < target then return none
  else
    let starts := (table.spans.map Span.start).toArray
    let index := partitionPoint (fun lineStart => lineStart ≤ target) starts - 1
    let span ← get table.spans index
    let distance ← sub target span.start
    return some ⟨index, min distance (← lengthOf span)⟩

/-- The boundary below an offset is found without a violation, whatever the offset. -/
theorem boundaryBelow_eq (text : Text) (offset : Nat) :
    boundaryBelow text offset = .ok (floorBoundary text offset) := by
  rw [boundaryBelow]
  split
  · next beyond =>
    rw [floorBoundary_of_size_le beyond]
    rfl
  · apply loop_eq (fun _ => True) id (floorBoundary text)
    · rintro offset -
      rw [stepDown]
      cases inside : isBoundary text offset with
      | true =>
        have same : floorBoundary text offset = offset := by simpa [isBoundary] using inside
        rw [same]
        exact Or.inl rfl
      | false =>
        have positive : offset ≠ 0 := by
          rintro rfl
          simp [isBoundary] at inside
        refine Or.inr ⟨offset - 1, ?_, by simp only [id_eq]; omega, trivial,
          floorBoundary_pred inside⟩
        rw [sub_eq (by omega)]
        rfl
    · exact Nat.lt_succ_self offset
    · trivial

/-- A span that goes forward has its length. -/
theorem lengthOf_ofLength (start length : Nat) : lengthOf (.ofLength start length) = .ok length := by
  rw [lengthOf, Span.ofLength, sub_eq (Nat.le_add_right _ _), Nat.add_sub_cancel_left]

/-- Every line has a span. -/
@[simp]
theorem length_spansOf (start : Nat) (lines : List Line) :
    (spansOf start lines).length = lines.length := by
  induction lines generalizing start with
  | nil => rfl
  | cons line rest hypothesis => simp [spansOf, hypothesis]

/-- The spans begin where the lines do. -/
theorem map_start_spansOf (start : Nat) (lines : List Line) :
    (spansOf start lines).map Span.start = Line.starts start lines := by
  induction lines generalizing start with
  | nil => rfl
  | cons line rest hypothesis => simp [spansOf, Line.starts, hypothesis, Span.ofLength]

/-- The span of a line is told by its start and its length. -/
theorem spansOf_getElem? {lines : List Line} {index : Nat} {line : Line}
    (present : lines[index]? = some line) (start : Nat) :
    (spansOf start lines)[index]? =
      some (.ofLength (start + Line.offset lines ⟨index, 0⟩) line.length) := by
  induction lines generalizing start index with
  | nil => simp at present
  | cons first rest hypothesis =>
    cases index with
    | zero =>
      cases present
      simp [spansOf]
    | succ index =>
      have later := hypothesis present (start + size first.text)
      simp [spansOf, later, Nat.add_assoc]

section Answers

variable {document : Document} {index : Nat}

/-- The table counts the lines of the document. -/
@[simp]
theorem lineCount_ofDocument (document : Document) :
    (ofDocument document).lineCount = document.lineCount := by
  simp [lineCount, ofDocument, Document.lineCount]

/-- The span of a line is found in the table. -/
theorem span_eq {line : Line} (present : document.lines[index]? = some line) :
    get (ofDocument document).spans index =
      .ok (.ofLength (document.offsetOf ⟨index, 0⟩) line.length) := by
  apply get_eq
  rw [ofDocument, spansOf_getElem? present, Nat.zero_add, Document.offsetOf_eq, document.lines_eq]

/-- The content of a line stands at the start of the line. -/
theorem content_parts {line : Line} (present : document.lines[index]? = some line) :
    ∃ before after, document.text = before ++ (line.content ++ after) ∧
      size before = document.offsetOf ⟨index, 0⟩ := by
  obtain ⟨before, after, joined, starts⟩ := Line.joined_parts present
  refine ⟨before, line.breakText ++ after, ?_, ?_⟩
  · rw [← document.joined_lines, joined, Line.text, List.append_assoc]
  · rw [starts, Document.offsetOf_eq, document.lines_eq]

/-- It cuts the content out of the text. -/
theorem content_eq {line : Line} (present : document.lines[index]? = some line) :
    slice document.text (.ofLength (document.offsetOf ⟨index, 0⟩) line.length) =
      .ok line.content := by
  obtain ⟨before, after, parted, starts⟩ := content_parts present
  apply slice_eq parted starts.symm
  rw [Span.ofLength, ← starts]
  rfl

/-- A line that is there is given without a violation. -/
theorem line_eq {line : Line} (present : document.lines[index]? = some line) :
    (ofDocument document).line index = .ok line.content := by
  rw [LineTable.line, span_eq present, ok_bind]
  exact content_eq present

/-- So is its length. -/
theorem lineLength_eq (present : index < document.lineCount) :
    (ofDocument document).lineLength index = .ok (document.lengthAt index) := by
  have found := List.getElem?_eq_getElem (l := document.lines) present
  rw [lineLength, span_eq found, ok_bind, lengthOf_ofLength, Document.lengthAt, found]

/-- So is the last position, since a document has a line. -/
theorem endPosition_eq (document : Document) :
    (ofDocument document).endPosition = .ok document.endPosition := by
  have positive := document.lineCount_pos
  rw [endPosition, lineCount_ofDocument, sub_eq positive, ok_bind, lineLength_eq (by omega)]
  rfl

variable (fits : document.size < wordLimit)

include fits

/-- The offset of a position is found without a violation, if its line is there. -/
theorem offsetOf_eq {p : Position} (present : p.line < document.lineCount) :
    (ofDocument document).offsetOf p = .ok (document.offsetOf p) := by
  have found := List.getElem?_eq_getElem (l := document.lines) present
  have sum : document.offsetOf p = document.offsetOf ⟨p.line, 0⟩ +
      floorBoundary (document.lines[p.line]).content p.character := by
    rw [Document.offsetOf_eq, Document.offsetOf_eq, ← document.lines_eq,
      Line.offset_eq_start_add found]
  have bound := document.offsetOf_le_size p
  rw [offsetOf, span_eq found, ok_bind]
  change (slice document.text _ >>= _) = _
  rw [content_eq found, ok_bind, boundaryBelow_eq, ok_bind, sum]
  apply add_eq
  rw [Span.ofLength, ← sum]
  omega

/-- The text in a range is cut out without a violation, if both its lines are there. -/
theorem textIn_eq {range : Range} (start : range.start.line < document.lineCount)
    (stop : range.stop.line < document.lineCount) :
    (ofDocument document).textIn range = .ok (document.textIn range) := by
  rw [textIn, offsetOf_eq fits start, ok_bind, offsetOf_eq fits stop, ok_bind, Document.textIn]
  split
  · rfl
  · next forward =>
    obtain ⟨front, back, parted, atStart, atStop, _, _⟩ :=
      Document.textIn_parts_of_le (Nat.le_of_lt (Nat.lt_of_not_le forward))
    rw [Document.textIn, if_neg forward] at parted atStop
    exact slice_eq parted atStart.symm atStop.symm

/-- A position some bytes further on is found without a violation, if the line it begins
    on is there. -/
theorem positionAfter_eq {start : Position} (present : start.line < document.lineCount)
    (offset : Nat) :
    (ofDocument document).positionAfter start offset =
      .ok (document.positionAfter start offset) := by
  rw [positionAfter, offsetOf_eq fits present, ok_bind, Document.positionAfter]
  have starts : ((ofDocument document).spans.map Span.start).toArray = document.starts := by
    rw [ofDocument, map_start_spansOf, document.starts_eq]
  have texts : size (ofDocument document).text = document.size := rfl
  simp only [starts, texts]
  generalize document.offsetOf start + offset = target
  by_cases tooLarge : wordLimit ≤ target
  · rw [if_pos tooLarge, if_pos tooLarge]
    rfl
  · rw [if_neg tooLarge, if_neg tooLarge]
    by_cases beyond : document.size < target
    · rw [if_pos beyond, if_pos beyond]
      rfl
    · rw [if_neg beyond, if_neg beyond, document.partitionPoint_starts, Nat.add_sub_cancel]
      obtain ⟨line, found, _⟩ := Line.locate_line document.text target
      rw [← document.lines_eq] at found
      have lineThere := (List.getElem?_eq_some_iff.mp found).1
      have reached : (Span.ofLength (document.offsetOf ⟨(locate document.text target).line, 0⟩)
          line.length).start ≤ target := by
        rw [Span.ofLength, Document.offsetOf_eq]
        apply (Line.offset_lineStart_le_iff _ target).mpr (Nat.le_refl _)
        rw [← document.lines_eq]
        exact lineThere
      rw [span_eq found, ok_bind, sub_eq reached, ok_bind, lengthOf_ofLength, ok_bind,
        document.starts_getElem? lineThere, Document.lengthAt, found, Document.offsetOf_eq]
      rfl

end Answers

end LineTable

end Guarded

end BlockMarkup
