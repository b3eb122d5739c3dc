import BlockMarkup.Proofs.File.Acceptance
import BlockMarkup.Proofs.Guarded.LineTable

/-!
# References in guarded steps

Interpolations are found in the table of the document. Code has a line table of
its own, filled like any other, and the spans that a reader of scripts reports
become positions of that table first. A span that the code does not have is left
out here as everywhere, so nothing is asked of the reports. The ranges of spans
in reverse are refused as the library refuses them: the equations of this module
hold for them too.
-/

namespace BlockMarkup.Guarded

open Text

/-- The reference that an interpolation in a text makes, the text being what the
    table has from `start` on. -/
def interpolation? (table : LineTable) (start : Position) (text : Text) (found : Interpolation) :
    Guarded (Option VariableReference) := do
  let name ← slice text found.nameSpan
  match ← table.positionAfter start found.nameSpan.start,
    ← table.positionAfter start found.nameSpan.stop with
  | some first, some last => return some ⟨name, ← between first last, .read, .unknown⟩
  | _, _ => return none

/-- The references by interpolation in a range. -/
def interpolated (table : LineTable) (range : Range) : Guarded (List VariableReference) := do
  let text ← table.textIn range
  filterMap (interpolation? table range.start text) (Interpolation.scan text)

/-- The range in the containing document of a span of a script. -/
def outerRange? (script : LineTable) (origin : Position) (span : Span) :
    Guarded (Option Range) := do
  match ← script.positionAfter .origin span.start, ← script.positionAfter .origin span.stop with
  | some start, some stop =>
    let inner ← between start stop
    return some (← ofChecked (inner.toOuter origin))
  | _, _ => return none

/-- The accessor call with these spans, if the script has them all. -/
def locate? (script : LineTable) (origin : Position) (accessor : Accessor)
    (callSpan argumentSpan nameSpan : Span) : Guarded (Option AccessorCall) :=
  match Text.slice? script.text nameSpan.start nameSpan.stop with
  | none => return none
  | some name => do
    let some nameRange ← outerRange? script origin nameSpan | return none
    let some callRange ← outerRange? script origin callSpan | return none
    let some argumentRange ← outerRange? script origin argumentSpan | return none
    return some ⟨accessor, callRange, argumentRange,
      ⟨name, nameRange, accessor.access, accessor.scope⟩⟩

/-- A member call as an accessor call. -/
def accessorCall? (script : LineTable) (origin : Position) (call : MemberCall) :
    Guarded (Option AccessorCall) :=
  if call.object = Accessor.object then
    match Accessor.ofName? call.property, call.argument with
    | some accessor, some (.literal whole value) =>
      locate? script origin accessor call.span whole value
    | _, _ => return none
  else
    return none

/-- The references that the accessor calls in code make, found in a table of the
    code. -/
def referencesIn (reader : ScriptReader) (code : Text) (origin : Position) :
    Guarded (List VariableReference) :=
  match reader code with
  | none => return []
  | some outline => do
    let script ← LineTable.ofText code
    let calls ← filterMap (accessorCall? script origin) outline.calls
    return calls.map AccessorCall.reference

/-- The references in the content of a block. -/
def readReferences (reading : Reading) (table : LineTable) (kind : ContentKind)
    (content : BlockContent) (contentRange : Range) : Guarded (List VariableReference) :=
  match kind, content with
  | .code, .text code => referencesIn reading.reader code contentRange.start
  | _, _ => interpolated table contentRange

section References

variable {document : Document} (fits : document.size < wordLimit)

include fits

/-- The interpolations in a range are looked for without a violation, if the document
    has the range. -/
theorem interpolated_eq {range : Range} (present : document.HasRange range) :
    interpolated (.ofDocument document) range = ofChecked (document.interpolated range) := by
  rw [interpolated, LineTable.textIn_eq fits present.start.line_lt present.stop.line_lt, ok_bind,
    Document.interpolated]
  apply filterMap_eq
  intro found member
  obtain ⟨before, after, parted, counted, _, _⟩ := Interpolation.parts_of_mem_scan member
  have name : slice (document.textIn range) found.nameSpan = .ok found.name := by
    apply slice_eq parted counted
    rw [← counted]
    rfl
  have first := LineTable.positionAfter_eq fits present.start.line_lt found.nameSpan.start
  have last := LineTable.positionAfter_eq fits present.start.line_lt found.nameSpan.stop
  rw [interpolation?, name, ok_bind, first, ok_bind, last, ok_bind, Interpolation.reference?]
  cases document.positionAfter range.start found.nameSpan.start with
  | none => rfl
  | some start =>
    cases document.positionAfter range.start found.nameSpan.stop with
    | none => rfl
    | some stop =>
      simp only [between]
      cases Range.between start stop <;> rfl

/-- The span of a call is moved to the document without a violation. -/
theorem outerRange?_eq (origin : Position) (span : Span) :
    outerRange? (.ofDocument document) origin span =
      ofChecked (document.outerRange? origin span) := by
  have first : (LineTable.ofDocument document).positionAfter .origin span.start = _ :=
    LineTable.positionAfter_eq fits document.lineCount_pos span.start
  have last : (LineTable.ofDocument document).positionAfter .origin span.stop = _ :=
    LineTable.positionAfter_eq fits document.lineCount_pos span.stop
  rw [outerRange?, first, ok_bind, last, ok_bind, Document.outerRange?, Document.positionAt,
    Document.positionAt]
  cases document.positionAfter .origin span.start with
  | none => rfl
  | some start =>
    cases document.positionAfter .origin span.stop with
    | none => rfl
    | some stop =>
      simp only [between]
      cases Range.between start stop with
      | error fault => rfl
      | ok inner =>
        simp only [ofChecked_ok, ok_bind, Checked.ok_bind]
        cases inner.toOuter origin <;> rfl

/-- So are the spans of a call, its argument and its name together. -/
theorem locate?_eq (origin : Position) (accessor : Accessor)
    (callSpan argumentSpan nameSpan : Span) :
    locate? (.ofDocument document) origin accessor callSpan argumentSpan nameSpan =
      ofChecked (AccessorCall.locate? document origin accessor callSpan argumentSpan nameSpan) := by
  have text : (LineTable.ofDocument document).text = document.text := rfl
  rw [locate?, AccessorCall.locate?, text]
  cases Text.slice? document.text nameSpan.start nameSpan.stop with
  | none => rfl
  | some name =>
    simp only [outerRange?_eq fits, ofChecked_bind]
    congr 1
    funext nameRange
    cases nameRange with
    | none => rfl
    | some nameRange =>
      simp only [ofChecked_bind]
      congr 1
      funext callRange
      cases callRange with
      | none => rfl
      | some callRange =>
        simp only [ofChecked_bind]
        congr 1
        funext argumentRange
        cases argumentRange with
        | none => rfl
        | some argumentRange => rfl

/-- A call is told to be an access without a violation. -/
theorem accessorCall?_eq (origin : Position) (call : MemberCall) :
    accessorCall? (.ofDocument document) origin call =
      ofChecked (AccessorCall.ofMemberCall? document origin call) := by
  rw [accessorCall?, AccessorCall.ofMemberCall?]
  split
  · cases Accessor.ofName? call.property with
    | none => rfl
    | some accessor =>
      cases call.argument with
      | none => rfl
      | some argument =>
        cases argument with
        | literal whole value => exact locate?_eq fits origin accessor call.span whole value
        | other whole => rfl
  · rfl

omit fits in
/-- The references of a script are found without a violation, whatever its reader
    reports. -/
theorem referencesIn_eq {code : Text} (fits : size code < wordLimit) (reader : ScriptReader)
    (origin : Position) :
    referencesIn reader code origin = ofChecked (AccessorCall.referencesIn reader code origin) := by
  rw [referencesIn, AccessorCall.referencesIn, AccessorCall.inCode]
  cases reader code with
  | none => rfl
  | some outline =>
    have kept : filterMap (accessorCall? (.ofDocument (.ofText code)) origin) outline.calls =
        ofChecked (Checked.filterMap (AccessorCall.ofMemberCall? (.ofText code) origin)
          outline.calls) := by
      apply filterMap_eq
      intro call _
      apply accessorCall?_eq
      exact fits
    simp only [LineTable.ofText_eq fits, ok_bind, kept, ofChecked_bind]
    rfl

/-- The references of a block are found without a violation, apart from ranges in
    reverse. The code of a block is what its content range covers. -/
theorem readReferences_eq (reading : Reading) (kind : ContentKind) {content : BlockContent}
    {contentRange : Range} (matched : content.MatchesSource document contentRange)
    (present : document.HasRange contentRange) :
    readReferences reading (.ofDocument document) kind content contentRange =
      ofChecked (Block.readReferences reading document kind content contentRange) := by
  cases kind with
  | code =>
    cases content with
    | text code =>
      have covered : code = document.textIn contentRange := matched
      have bound := document.offsetOf_add_size_textIn_le contentRange
      apply referencesIn_eq
      rw [covered]
      omega
    | dictionary items => exact interpolated_eq fits present
    | array items => exact interpolated_eq fits present
  | dictionary => exact interpolated_eq fits present
  | array => exact interpolated_eq fits present
  | text => exact interpolated_eq fits present

end References

end BlockMarkup.Guarded
