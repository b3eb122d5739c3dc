import Mathlib.Data.List.Forall2
import BlockMarkup.Proofs.Document.Walk
import BlockMarkup.Proofs.Position.Containment

/-!
# References are the occurrences of names in braces

The references by interpolation in a part of a document are told by the text of
the part alone. Wherever in that text a name stands in double braces there is a
reference, and there are no others, whatever else the text has and wherever the
scan went on. The reference covers the name on the line of the document where it
stands.

Between two names there are braces, so their ranges have a character between
them. A position is in one of the ranges at most, also if the end of a range is
counted in, and looking up a position is not a matter of order.
-/

namespace BlockMarkup

open Text

/-! ## What is to be shown -/

/-- Whether a range covers a piece of the text of a document that begins at the
    byte offset: the piece stands on one line, and the range begins at its
    column and ends behind it. -/
def Document.CoversPiece (document : Document) (offset : Nat) (piece : Text) (range : Range) :
    Prop :=
  ∃ index line left right, document.lines[index]? = some line ∧
    line.content = left ++ (piece ++ right) ∧
    offset = Text.size (Line.joined (document.lines.take index)) + Text.size left ∧
    range = Range.ofLength index (Text.size left) (Text.size piece)

/-- Whether a reference is that of an interpolation, the offset of which counts
    from a byte offset of the document. -/
structure VariableReference.Reports (document : Document) (start : Nat) (found : Interpolation)
    (reference : VariableReference) : Prop where
  name : reference.name = found.name
  access : reference.access = .read
  scope : reference.scope = .unknown
  nameRange : document.CoversPiece (start + found.offset) found.name reference.nameRange

/-- Whether references are those of all occurrences in the text of a range, and
    can be looked up by their positions. -/
structure Document.ReportsOccurrences (document : Document) (range : Range)
    (references : List VariableReference) : Prop where
  /-- There is one reference for each occurrence, in the order of the text. -/
  occurrences : ∃ found : List Interpolation,
    found.Pairwise (fun earlier later => earlier.offset < later.offset) ∧
    (∀ interpolation, interpolation ∈ found ↔ interpolation.OccursIn 0 (document.textIn range)) ∧
    List.Forall₂ (VariableReference.Reports document (document.offsetOf range.start))
      found references
  /-- No two of their ranges touch. -/
  apart : references.Pairwise fun earlier later => earlier.nameRange.stop < later.nameRange.start
  findAt_some : ∀ p reference, VariableReference.findAt references p = some reference ↔
    reference ∈ references ∧ reference.nameRange.containsInclusive p = true ∧
      ∀ other ∈ references, other.nameRange.containsInclusive p = true → other = reference
  findAt_none : ∀ p, VariableReference.findAt references p = none ↔
    ∀ reference ∈ references, reference.nameRange.containsInclusive p = false

/-! ## Pieces of a line -/

/-- A piece without a line feed ends on the line where it begins. -/
theorem Text.locate_behind_piece {front piece back : Text} (noFeed : '\n' ∉ piece)
    (startWhole : ¬ SplitsBreak front (piece ++ back)) (stopWhole : ¬ SplitsBreak piece back) :
    locate (front ++ (piece ++ back)) (size front + size piece) =
      ⟨(locate (front ++ (piece ++ back)) (size front)).line,
        (locate (front ++ (piece ++ back)) (size front)).character + size piece⟩ := by
  have begins := locate_append front (piece ++ back) startWhole 0
  have ends := locate_append front (piece ++ back) startWhole (size piece)
  rw [locate_zero, Position.origin_placedAt, Nat.add_zero] at begins
  rw [locate_append_of_le piece back stopWhole (Nat.le_refl _),
    Line.locate_of_noFeed noFeed (Nat.le_refl _)] at ends
  rw [ends, begins]
  rfl

namespace Document

variable {document : Document} {piece : Text}

/-- Offsets on a line count from its start, and none is behind its content. -/
theorem offsetOf_column {index : Nat} {line : Line} (present : document.lines[index]? = some line)
    (character : Nat) :
    document.offsetOf ⟨index, character⟩ =
      Text.size (Line.joined (document.lines.take index)) +
        floorBoundary line.content character := by
  have bound := Nat.le_of_lt (List.getElem?_eq_some_iff.mp present).1
  rw [offsetOf_eq_offset_lines, Line.offset_eq_start_add present, Line.offset_lineStart bound]

/-- A piece of the text without a line feed is covered by the range of its
    offsets, unless one of its ends is inside a break. -/
theorem coversPiece_locate {front back : Text} (parted : document.text = front ++ (piece ++ back))
    (noFeed : '\n' ∉ piece) (startWhole : ¬ SplitsBreak front (piece ++ back))
    (stopWhole : ¬ SplitsBreak (front ++ piece) back) :
    document.CoversPiece (Text.size front) piece
      ⟨locate document.text (Text.size front),
        locate document.text (Text.size front + Text.size piece)⟩ := by
  have stopParted : document.text = (front ++ piece) ++ back := by rw [parted, List.append_assoc]
  have atStart := offsetOf_locate parted startWhole
  have atStop := offsetOf_locate stopParted stopWhole
  have ends := locate_behind_piece noFeed startWhole (not_splitsBreak_of_append stopWhole)
  obtain ⟨line, present, column⟩ := Line.locate_line document.text (Text.size front)
  rw [← parted] at ends
  rw [size_append] at atStop
  rw [ends] at atStop ⊢
  generalize locate document.text (Text.size front) = start at *
  obtain ⟨index, character⟩ := start
  simp only at present column atStop ⊢
  rw [← document.lines_eq] at present column
  obtain ⟨before, after, joined, sizes⟩ := Line.joined_parts present
  rw [← sizes] at column
  rw [Line.offset_lineStart (Nat.le_of_lt (List.getElem?_eq_some_iff.mp present).1)] at sizes
  rw [offsetOf_column present, ← sizes] at atStart atStop
  have inside := floorBoundary_le_size line.content (character + Text.size piece)
  -- The text before the piece ends on the line, and so does the piece.
  have parts : before ++ (line.content ++ (line.breakText ++ after)) = front ++ (piece ++ back) := by
    rw [← parted, ← joined_lines, joined, Line.text, List.append_assoc]
  obtain ⟨left, rfl, fromLine⟩ := parts_nested parts (by omega)
  rw [size_append] at atStart atStop column ⊢
  have leftParts : (left ++ piece) ++ back = line.content ++ (line.breakText ++ after) := by
    rw [fromLine, List.append_assoc]
  obtain ⟨right, content, _⟩ := parts_nested leftParts (by rw [size_append]; omega)
  have atColumn : character = Text.size left := by
    rw [column, Line.length]
    omega
  refine ⟨index, line, left, right, present, ?_, by rw [sizes], by rw [atColumn]; rfl⟩
  rw [content, List.append_assoc]

/-- A range that covers a piece begins and ends at the offsets of the piece. -/
theorem CoversPiece.offsetOf_eq {offset : Nat} {range : Range}
    (covers : document.CoversPiece offset piece range) :
    document.offsetOf range.start = offset ∧
      document.offsetOf range.stop = offset + Text.size piece := by
  obtain ⟨index, line, left, right, present, content, rfl, rfl⟩ := covers
  have atStart := floorBoundary_size left (piece ++ right)
  have atStop := floorBoundary_size (left ++ piece) right
  rw [List.append_assoc, size_append] at atStop
  constructor
  · rw [Range.ofLength, offsetOf_column present, content, atStart]
  · rw [Range.ofLength, offsetOf_column present, content, atStop, Nat.add_assoc]

end Document

/-! ## Looking up a position -/

namespace VariableReference

/-- The reference found at a position is one of them and has the position. -/
theorem mem_of_findAt {references : List VariableReference} {p : Position}
    {reference : VariableReference} (found : findAt references p = some reference) :
    reference ∈ references ∧ reference.nameRange.containsInclusive p = true := by
  have inside := List.find?_some found
  exact ⟨List.mem_of_find?_eq_some found, inside⟩

variable {references : List VariableReference}
  (apart : references.Pairwise fun earlier later => earlier.nameRange.stop < later.nameRange.start)

include apart

/-- References whose ranges do not touch have no position in common. -/
theorem eq_of_containsInclusive {reference other : VariableReference} {p : Position}
    (member : reference ∈ references) (otherMember : other ∈ references)
    (inside : reference.nameRange.containsInclusive p = true)
    (otherInside : other.nameRange.containsInclusive p = true) : reference = other := by
  refine eq_of_pairwise_excluding (fun reference => reference.nameRange.containsInclusive p = true)
    apart ?_ member otherMember inside otherInside
  intro first second before inFirst inSecond
  have upTo := (Range.containsInclusive_iff.mp inFirst).2
  have onward := (Range.containsInclusive_iff.mp inSecond).1
  exact Position.not_lt.mpr (Position.le_trans onward upTo) before

/-- The reference at a position is the only one that has it. -/
theorem findAt_eq_some_iff (p : Position) (reference : VariableReference) :
    findAt references p = some reference ↔
      reference ∈ references ∧ reference.nameRange.containsInclusive p = true ∧
        ∀ other ∈ references, other.nameRange.containsInclusive p = true → other = reference := by
  constructor
  · intro found
    obtain ⟨member, inside⟩ := mem_of_findAt found
    refine ⟨member, inside, ?_⟩
    intro other otherMember otherInside
    exact eq_of_containsInclusive apart otherMember member otherInside inside
  · rintro ⟨member, inside, only⟩
    cases found : findAt references p with
    | none => exact absurd inside (List.find?_eq_none.mp found reference member)
    | some other =>
      obtain ⟨otherMember, otherInside⟩ := mem_of_findAt found
      rw [only other otherMember otherInside]

omit apart in
/-- None is found if none has the position. -/
theorem findAt_eq_none_iff (p : Position) :
    findAt references p = none ↔
      ∀ reference ∈ references, reference.nameRange.containsInclusive p = false := by
  simp only [findAt, List.find?_eq_none, Bool.not_eq_true]

end VariableReference

/-! ## The references of a range -/

namespace VariableReference.Reports

variable {document : Document} {start : Nat} {found later : Interpolation}
  {reference next : VariableReference}

/-- Names with braces between them have ranges that do not touch. -/
theorem stop_lt_start (reports : Reports document start found reference)
    (laterReports : Reports document start later next)
    (apart : found.nameSpan.stop < later.nameSpan.start) :
    reference.nameRange.stop < next.nameRange.start := by
  obtain ⟨_, stop⟩ := reports.nameRange.offsetOf_eq
  obtain ⟨begins, _⟩ := laterReports.nameRange.offsetOf_eq
  simp only [Interpolation.nameSpan, Span.ofLength] at apart
  by_contra touching
  have offsets := document.offsetOf_le_offsetOf (Position.not_lt.mp touching)
  omega

end VariableReference.Reports

namespace Document

variable {document : Document} {range : Range}

/-- A name that is found in the text of a range is covered on its line. There are
    braces before and behind it, so it begins and ends in no break. -/
theorem reports_of_mem_scan {found : Interpolation}
    (member : found ∈ Interpolation.scan (document.textIn range)) :
    VariableReference.Reports document (document.offsetOf range.start) found
      ⟨found.name, document.subRange range found.nameSpan.start found.nameSpan.stop, .read,
        .unknown⟩ := by
  obtain ⟨front, back, whole, start, _, _⟩ := document.textIn_parts range
  obtain ⟨before, after, parted, counted, opening, closing⟩ :=
    Interpolation.parts_of_mem_scan member
  have occurs := (Interpolation.mem_scan_iff _ _).mp member
  have noFeed : '\n' ∉ found.name := by
    intro feed
    have filled := (occurs.nameChars _ feed).1
    revert filled
    decide
  have parts : document.text = (front ++ before) ++ (found.name ++ (after ++ back)) := by
    rw [whole, parted]
    simp only [List.append_assoc]
  have startWhole : ¬ SplitsBreak (front ++ before) (found.name ++ (after ++ back)) := by
    rintro ⟨carriage, _⟩
    rw [List.getLast?_append, opening] at carriage
    cases carriage
  have stopWhole : ¬ SplitsBreak (front ++ before ++ found.name) (after ++ back) := by
    rintro ⟨_, feed⟩
    rw [List.head?_append, closing] at feed
    cases feed
  have covers := coversPiece_locate parts noFeed startWhole stopWhole
  rw [size_append, start, ← counted] at covers
  refine ⟨rfl, rfl, rfl, ?_⟩
  rw [subRange, Interpolation.nameSpan, Span.ofLength, ← Nat.add_assoc]
  exact covers

/-- The references by interpolation in a range are those of the occurrences in
    its text. The document is one that is held in memory; the range may be any. -/
theorem interpolated_occurrences (document : Document) (fits : document.size < wordLimit)
    (range : Range) :
    ∃ references, document.interpolated range = .ok references ∧
      document.ReportsOccurrences range references := by
  have steps : ∀ found ∈ Interpolation.scan (document.textIn range), _ :=
    fun found member => Interpolation.reference?_eq fits range member
  have found := Checked.filterMap_eq_ok_map steps
  have ordered := Interpolation.pairwise_scanFrom 0 0 (document.textIn range)
  have apart : ((Interpolation.scan (document.textIn range)).map fun found =>
      (⟨found.name, document.subRange range found.nameSpan.start found.nameSpan.stop, .read,
        .unknown⟩ : VariableReference)).Pairwise
      fun earlier later => earlier.nameRange.stop < later.nameRange.start := by
    rw [List.pairwise_map]
    apply ordered.imp_of_mem
    intro earlier later earlierMember laterMember between
    exact (reports_of_mem_scan earlierMember).stop_lt_start (reports_of_mem_scan laterMember)
      between
  refine ⟨_, found, ⟨Interpolation.scan (document.textIn range), ?_, ?_, ?_⟩, apart, ?_, ?_⟩
  · apply ordered.imp
    intro earlier later between
    simp only [Interpolation.nameSpan, Span.ofLength] at between
    omega
  · exact Interpolation.mem_scan_iff (document.textIn range)
  · rw [List.forall₂_map_right_iff, List.forall₂_same]
    intro interpolation member
    exact reports_of_mem_scan member
  · exact VariableReference.findAt_eq_some_iff apart
  · exact VariableReference.findAt_eq_none_iff

/-- A name with three braces on each side, one that is never closed, and two that
    follow one another. -/
def looseBraces : Document :=
  ofText "\x7b\x7b\x7ba\x7d\x7d\x7d\r\n\x7b\x7bx\x7b\x7bé\x7d\x7d\x7b\x7bc\x7d\x7d".toList

/-- The range begins inside the braces and ends on a line that is not there. -/
theorem interpolated_occurrences_looseBraces :
    looseBraces.size < wordLimit ∧
      ∃ references, looseBraces.interpolated ⟨⟨0, 1⟩, ⟨9, 0⟩⟩ = .ok references ∧
        references.map (fun reference => (reference.name, reference.nameRange)) =
          [("a".toList, Range.ofLength 0 3 1), ("é".toList, Range.ofLength 1 5 2),
            ("c".toList, Range.ofLength 1 11 1)] ∧
        looseBraces.ReportsOccurrences ⟨⟨0, 1⟩, ⟨9, 0⟩⟩ references := by
  have fits : looseBraces.size < wordLimit := by decide
  have found : (looseBraces.interpolated ⟨⟨0, 1⟩, ⟨9, 0⟩⟩).toOption.map (fun references =>
      references.map fun reference => (reference.name, reference.nameRange)) =
        some [("a".toList, Range.ofLength 0 3 1), ("é".toList, Range.ofLength 1 5 2),
          ("c".toList, Range.ofLength 1 11 1)] := by decide +kernel
  obtain ⟨references, reported, occurrences⟩ := interpolated_occurrences _ fits ⟨⟨0, 1⟩, ⟨9, 0⟩⟩
  rw [reported] at found
  exact ⟨fits, references, reported, Option.some.inj found, occurrences⟩

end Document

end BlockMarkup
