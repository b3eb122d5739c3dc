import BlockMarkup.Proofs.Document.SubRange
import BlockMarkup.Proofs.Grammar.Interpolation
import BlockMarkup.Proofs.Position.Translation
import BlockMarkup.Variable.Accessor
import BlockMarkup.Variable.Interpolated

/-!
# References point at their names

References are found in the text of a range of a document. An interpolation is
reported by counting from the start of the range in the document. An accessor
call is reported by making a document of the text, and moving the positions by
the start of the range. Both ways lead to the range of the offsets of the name,
`Document.subRange`, so one statement holds of both: the reference points into
the range.

What reads a script is not known. What it reports has to be in order, and a
literal must not begin or end inside a break; nothing else is asked of it. Spans
may go beyond the script or through its characters.
-/

namespace BlockMarkup

open Text

namespace VariableReference

/-- Whether the name is a piece of the text of a range of the document that
    divides no break, and the name range is that of its offsets. -/
def PointsInto (reference : VariableReference) (document : Document) (range : Range) : Prop :=
  ∃ before after, document.textIn range = before ++ (reference.name ++ after) ∧
    ¬ SplitsBreak before (reference.name ++ after) ∧
    ¬ SplitsBreak (before ++ reference.name) after ∧
    reference.nameRange =
      document.subRange range (size before) (size before + size reference.name)

variable {reference : VariableReference} {document : Document} {range : Range}

/-- The name of a reference stands where it points. -/
theorem PointsInto.textIn_nameRange (points : reference.PointsInto document range) :
    document.textIn reference.nameRange = reference.name := by
  obtain ⟨before, after, parted, startWhole, stopWhole, located⟩ := points
  rw [located]
  exact Document.textIn_subRange parted startWhole stopWhole

/-- It points into the range that it was found in. -/
theorem PointsInto.containsRange_nameRange (points : reference.PointsInto document range)
    (present : document.HasRange range) : range.containsRange reference.nameRange = true := by
  obtain ⟨before, after, parted, _, _, located⟩ := points
  rw [located]
  apply Document.containsRange_subRange present
  rw [parted, size_append, size_append]
  omega

end VariableReference

/-! ## Interpolations -/

section Interpolations

variable {document : Document} (fits : document.size < wordLimit) (range : Range)

include fits

/-- A name in the text of a range is reported by its offsets. -/
theorem Interpolation.reference?_eq {found : Interpolation}
    (member : found ∈ scan (document.textIn range)) :
    found.reference? document range.start = .ok (some ⟨found.name,
      document.subRange range found.nameSpan.start found.nameSpan.stop, .read, .unknown⟩) := by
  obtain ⟨before, after, parted, counted, _, _⟩ := parts_of_mem_scan member
  have reached := document.offsetOf_add_size_textIn_le range
  have spanOrdered : found.nameSpan.start ≤ found.nameSpan.stop := Nat.le_add_right _ _
  have inside : found.nameSpan.stop ≤ size (document.textIn range) := by
    simp only [parted, size_append, nameSpan, Span.ofLength, counted]
    omega
  have first : document.positionAfter range.start found.nameSpan.start = _ :=
    Document.positionAfter_of_le fits (by omega)
  have last : document.positionAfter range.start found.nameSpan.stop = _ :=
    Document.positionAfter_of_le fits (by omega)
  have ranged := Range.between_eq_ok_iff.mpr ⟨document.subRange_ordered range spanOrdered, rfl⟩
  unfold reference?
  rw [first, last]
  exact Checked.bind_eq_ok_iff.mpr ⟨_, ranged, rfl⟩

/-- The interpolations of a range are never refused. -/
theorem Document.interpolated_accepted :
    ∃ references, document.interpolated range = .ok references := by
  apply Checked.filterMap_accepted
  intro found member
  exact ⟨_, Interpolation.reference?_eq fits range member⟩

/-- The braces around a name keep its ends away from breaks. -/
theorem Document.pointsInto_of_mem_interpolated {references : List VariableReference}
    (found : document.interpolated range = .ok references) {reference : VariableReference}
    (member : reference ∈ references) : reference.PointsInto document range := by
  obtain ⟨interpolation, scanned, reported⟩ := Checked.exists_of_mem_filterMap found member
  rw [Interpolation.reference?_eq fits range scanned] at reported
  cases reported
  obtain ⟨before, after, parted, counted, opening, closing⟩ :=
    Interpolation.parts_of_mem_scan scanned
  refine ⟨before, after, parted, ?_, ?_, ?_⟩
  · rintro ⟨carriage, _⟩
    rw [opening] at carriage
    simp at carriage
  · rintro ⟨_, feed⟩
    rw [closing] at feed
    simp at feed
  · rw [← counted]
    rfl

end Interpolations

/-! ## What a reader of scripts reports -/

/-- Whether an offset is between the carriage return and the line feed of a
    pair. -/
def Text.InsideBreak (text : Text) (offset : Nat) : Prop :=
  ∃ front back, text = front ++ '\r' :: '\n' :: back ∧ offset = size front + 1

/-- The characters on both sides of an offset tell. -/
theorem Text.insideBreak_iff (text : Text) (offset : Nat) :
    InsideBreak text offset ↔
      0 < offset ∧ slice? text (offset - 1) (offset + 1) = some ['\r', '\n'] := by
  have pair : size ['\r', '\n'] = 2 := rfl
  rw [slice?_eq_some_iff]
  constructor
  · rintro ⟨front, back, parted, rfl⟩
    exact ⟨by omega, front, back, parted, by omega, by omega⟩
  · rintro ⟨positive, front, back, parted, start, stop⟩
    exact ⟨front, back, parted, by omega⟩

/-- Whether an offset is inside a break can be decided by looking at the text. -/
instance (text : Text) (offset : Nat) : Decidable (InsideBreak text offset) :=
  decidable_of_iff _ (insideBreak_iff text offset).symm

/-- A cut at an offset that is not inside a break divides none. -/
theorem Text.not_splitsBreak_of_not_insideBreak {front back : Text}
    (outside : ¬ InsideBreak (front ++ back) (size front)) : ¬ SplitsBreak front back := by
  rintro ⟨carriage, feed⟩
  obtain ⟨earlier, rfl⟩ := List.getLast?_eq_some_iff.mp carriage
  obtain ⟨later, rfl⟩ := List.head?_eq_some_iff.mp feed
  apply outside
  refine ⟨earlier, later, ?_, ?_⟩
  · simp
  · rw [size_append]
    rfl

/-- Whether a span does not end before it begins. -/
def Span.Ordered (span : Span) : Prop :=
  span.start ≤ span.stop

/-- Whether a span goes forward can be decided. -/
instance (span : Span) : Decidable span.Ordered :=
  inferInstanceAs (Decidable (span.start ≤ span.stop))

/-- Whether another span lies in a span. -/
def Span.Contains (span inner : Span) : Prop :=
  span.start ≤ inner.start ∧ inner.stop ≤ span.stop

/-- Whether a span holds another can be decided by their ends. -/
instance (span inner : Span) : Decidable (span.Contains inner) :=
  inferInstanceAs (Decidable (_ ∧ _))

/-- Whether the spans of an argument go forward. -/
def CallArgument.Ordered : CallArgument → Prop
  | .literal whole value => whole.Ordered ∧ value.Ordered
  | .other whole => whole.Ordered

/-- Whether they do can be decided for either sort of argument. -/
instance : (argument : CallArgument) → Decidable argument.Ordered
  | .literal whole value => inferInstanceAs (Decidable (whole.Ordered ∧ value.Ordered))
  | .other whole => inferInstanceAs (Decidable whole.Ordered)

/-- Whether all spans of a call are in order. -/
structure MemberCall.Ordered (call : MemberCall) : Prop where
  span : call.span.Ordered
  argument : ∀ argument, call.argument = some argument → argument.Ordered

/-- Whether the spans of a call go forward can be decided as well. -/
instance (call : MemberCall) : Decidable call.Ordered :=
  decidable_of_iff (call.span.Ordered ∧ ∀ argument ∈ call.argument, argument.Ordered)
    ⟨fun ⟨span, argument⟩ => ⟨span, argument⟩, fun ordered => ⟨ordered.span, ordered.argument⟩⟩

/-- Whether the spans of every call that is reported are in order. They need not
    be in the script. -/
def ScriptReader.Ordered (reader : ScriptReader) : Prop :=
  ∀ source outline, reader source = some outline → ∀ call ∈ outline.calls, call.Ordered

/-- Whether no value of a literal that is reported begins or ends inside a break
    of the script. -/
def ScriptReader.KeepsBreaks (reader : ScriptReader) : Prop :=
  ∀ source outline, reader source = some outline → ∀ call ∈ outline.calls, ∀ whole value,
    call.argument = some (.literal whole value) →
      ¬ InsideBreak source value.start ∧ ¬ InsideBreak source value.stop

/-! ## Accessor calls -/

section AccessorCalls

variable {document : Document} (fits : document.size < wordLimit) {range : Range}
  (located : document.HasPosition range.start)

include fits located

/-- A span of the text of a range is the range of its offsets in the document,
    and a span that goes beyond the text is left out. -/
theorem Document.outerRange?_textIn {span : Span} (ordered : span.Ordered) :
    (ofText (document.textIn range)).outerRange? range.start span =
      .ok (if span.stop ≤ Text.size (document.textIn range) then
        some (document.subRange range span.start span.stop) else none) := by
  have reached := document.offsetOf_add_size_textIn_le range
  have sliceFits : (ofText (document.textIn range)).size < wordLimit := by
    change Text.size (document.textIn range) < wordLimit
    omega
  unfold outerRange?
  by_cases inside : span.stop ≤ Text.size (document.textIn range)
  · have startInside : span.start ≤ Text.size (document.textIn range) := Nat.le_trans ordered inside
    have first : (ofText (document.textIn range)).positionAt span.start = _ :=
      positionAt_of_le sliceFits startInside
    have last : (ofText (document.textIn range)).positionAt span.stop = _ :=
      positionAt_of_le sliceFits inside
    have firstMoved := toOuter_locate_textIn fits range startInside
    have lastMoved := toOuter_locate_textIn fits range inside
    rw [located] at firstMoved lastMoved
    have inOrder := locate_le_locate (document.textIn range) ordered
    have inner := Range.between_eq_ok_iff.mpr ⟨inOrder, rfl⟩
    have outer := Range.toOuter_of_ordered inOrder firstMoved lastMoved
    rw [first, last, if_pos inside]
    exact Checked.bind_eq_ok_iff.mpr ⟨_, inner, Checked.bind_eq_ok_iff.mpr ⟨_, outer, rfl⟩⟩
  · have beyond : (ofText (document.textIn range)).positionAt span.stop = none :=
      positionAt_of_lt (Nat.lt_of_not_le inside)
    rw [beyond, if_neg inside]
    cases (ofText (document.textIn range)).positionAt span.start with
    | none => rfl
    | some first => rfl

namespace AccessorCall

/-- A call with spans in order is not refused. If it is not left out either, its
    name is the piece of the text that the span of the name cuts out, and its
    name range is that of the span. -/
theorem locate?_accepted (accessor : Accessor) {callSpan argumentSpan nameSpan : Span}
    (callOrdered : callSpan.Ordered) (argumentOrdered : argumentSpan.Ordered)
    (nameOrdered : nameSpan.Ordered) :
    ∃ found, locate? (.ofText (document.textIn range)) range.start accessor callSpan argumentSpan
        nameSpan = .ok found ∧
      ∀ call, found = some call →
        slice? (document.textIn range) nameSpan.start nameSpan.stop = some call.reference.name ∧
        call.reference.nameRange = document.subRange range nameSpan.start nameSpan.stop := by
  unfold locate?
  cases sliced : slice? (Document.ofText (document.textIn range)).text nameSpan.start
    nameSpan.stop with
  | none => exact ⟨none, rfl, by simp⟩
  | some name =>
    simp only [Document.outerRange?_textIn fits located callOrdered,
      Document.outerRange?_textIn fits located argumentOrdered,
      Document.outerRange?_textIn fits located nameOrdered, Checked.ok_bind]
    by_cases nameInside : nameSpan.stop ≤ size (document.textIn range)
    · by_cases callInside : callSpan.stop ≤ size (document.textIn range)
      · by_cases argumentInside : argumentSpan.stop ≤ size (document.textIn range)
        · simp only [nameInside, callInside, argumentInside, if_true]
          refine ⟨_, rfl, ?_⟩
          rintro call ⟨⟩
          exact ⟨sliced, rfl⟩
        · simp only [nameInside, callInside, argumentInside, if_true, if_false]
          exact ⟨none, rfl, by simp⟩
      · simp only [nameInside, callInside, if_true, if_false]
        exact ⟨none, rfl, by simp⟩
    · simp only [nameInside, if_false]
      exact ⟨none, rfl, by simp⟩

/-- A member call with spans in order is not refused, and if it is an accessor
    call, the reference comes from the value of its literal. -/
theorem ofMemberCall?_accepted {call : MemberCall} (ordered : call.Ordered) :
    ∃ found, ofMemberCall? (.ofText (document.textIn range)) range.start call = .ok found ∧
      ∀ accessorCall, found = some accessorCall →
        ∃ whole value, call.argument = some (.literal whole value) ∧
          slice? (document.textIn range) value.start value.stop = some accessorCall.reference.name ∧
          accessorCall.reference.nameRange = document.subRange range value.start value.stop := by
  unfold ofMemberCall?
  split
  · split
    · next accessor whole value _ literal =>
      obtain ⟨wholeOrdered, valueOrdered⟩ := ordered.argument _ literal
      obtain ⟨found, accepted, cut⟩ :=
        locate?_accepted fits located accessor ordered.span wholeOrdered valueOrdered
      refine ⟨found, accepted, ?_⟩
      intro accessorCall made
      exact ⟨whole, value, literal, cut accessorCall made⟩
    · exact ⟨none, rfl, by simp⟩
  · exact ⟨none, rfl, by simp⟩

/-- The references of a script are never refused. -/
theorem referencesIn_accepted {reader : ScriptReader} (ordered : reader.Ordered) :
    ∃ references, referencesIn reader (document.textIn range) range.start = .ok references := by
  have calls : ∃ calls, inCode reader (document.textIn range) range.start = .ok calls := by
    unfold inCode
    split
    · exact ⟨[], rfl⟩
    · next outline reported =>
      apply Checked.filterMap_accepted
      intro call member
      obtain ⟨found, accepted, _⟩ :=
        ofMemberCall?_accepted fits located (ordered _ outline reported call member)
      exact ⟨found, accepted⟩
  obtain ⟨calls, accepted⟩ := calls
  exact ⟨calls.map reference, Checked.bind_eq_ok_iff.mpr ⟨calls, accepted, rfl⟩⟩

/-- The references of a script point into the range that the script is the text
    of. -/
theorem pointsInto_of_mem_referencesIn {reader : ScriptReader} (ordered : reader.Ordered)
    (whole : reader.KeepsBreaks) {references : List VariableReference}
    (found : referencesIn reader (document.textIn range) range.start = .ok references)
    {named : VariableReference} (member : named ∈ references) :
    named.PointsInto document range := by
  obtain ⟨calls, listed, made⟩ := Checked.bind_eq_ok_iff.mp found
  cases Checked.pure_eq_ok_iff.mp made
  obtain ⟨accessorCall, present, rfl⟩ := List.mem_map.mp member
  unfold inCode at listed
  split at listed
  · cases listed
    cases present
  · next outline reported =>
    obtain ⟨call, inOutline, stepped⟩ := Checked.exists_of_mem_filterMap listed present
    obtain ⟨result, accepted, cut⟩ :=
      ofMemberCall?_accepted fits located (ordered _ outline reported call inOutline)
    rw [stepped] at accepted
    obtain ⟨literal, value, argument, sliced, ranged⟩ :=
      cut accessorCall (Except.ok.inj accepted).symm
    obtain ⟨startOutside, stopOutside⟩ :=
      whole _ outline reported call inOutline literal value argument
    obtain ⟨before, after, parted, start, stop⟩ := (slice?_eq_some_iff _ _ _ _).mp sliced
    refine ⟨before, after, parted, ?_, ?_, ?_⟩
    · apply not_splitsBreak_of_not_insideBreak
      rwa [← parted, start]
    · apply not_splitsBreak_of_not_insideBreak
      rwa [List.append_assoc, ← parted, size_append, start, ← stop]
    · rw [ranged, start, stop]

end AccessorCall

end AccessorCalls

end BlockMarkup
