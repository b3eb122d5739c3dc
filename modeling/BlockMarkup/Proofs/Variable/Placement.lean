import BlockMarkup.Proofs.Block.LineNumbers
import BlockMarkup.Proofs.Variable.Naming

/-!
# References and the place of their text

The references in a text depend on the text and on the position at which it
begins. Of the containing document nothing else matters, neither for
interpolations, which are counted out in the document, nor for accessor calls,
which are located in a document of their own. A text that begins further down
has the same references further down.
-/

namespace BlockMarkup

open Text

/-! ## Interpolations -/

/-- The references by interpolation in a text that begins at a position. -/
def Interpolation.references (text : Text) (origin : Position) : List VariableReference :=
  (scan text).map fun found =>
    ⟨found.name, ⟨(locate text found.nameSpan.start).placedAt origin,
      (locate text found.nameSpan.stop).placedAt origin⟩, .read, .unknown⟩

/-- The interpolations of a range are those of its text, placed at its start. -/
theorem Document.interpolated_eq {document : Document} (fits : document.size < wordLimit)
    {range : Range} (located : document.HasPosition range.start) :
    document.interpolated range =
      .ok (Interpolation.references (document.textIn range) range.start) := by
  apply Checked.filterMap_eq_ok_map
  intro found member
  obtain ⟨start, stop⟩ := Interpolation.nameSpan_le_size member
  have placed {offset : Nat} (inside : offset ≤ Text.size (document.textIn range)) :
      locate document.text (document.offsetOf range.start + offset) =
        (locate (document.textIn range) offset).placedAt range.start := by
    rw [← document.locate_textIn range inside, located]
  rw [Interpolation.reference?_eq fits range member, subRange, placed start, placed stop]

/-- A text some lines further on has the same interpolated references, so many lines
    further on. -/
theorem Interpolation.references_add (count : Nat) (text : Text) (origin : Position) :
    references text (origin.mapLines (· + count)) =
      (references text origin).map (VariableReference.mapLines (· + count)) := by
  simp [references, VariableReference.mapLines, Position.placedAt_mapLines]

/-! ## Accessor calls -/

/-- A call with the line numbers of all its ranges replaced. -/
def AccessorCall.mapLines (f : Nat → Nat) (call : AccessorCall) : AccessorCall :=
  { call with
    callRange := call.callRange.mapLines f
    argumentRange := call.argumentRange.mapLines f
    reference := call.reference.mapLines f }

/-- A range of a text is moved to the line where the text begins, if the lines of
    both together are machine words. -/
theorem Range.toOuter_lineStart (range : Range) (line : Nat) {bound : Nat}
    (fits : line + bound < wordLimit) (ordered : range.start ≤ range.stop)
    (start : range.start.line + range.start.character ≤ bound)
    (stop : range.stop.line + range.stop.character ≤ bound) :
    range.toOuter ⟨line, 0⟩ = .ok (range.mapLines (line + ·)) := by
  have moved {p : Position} (short : p.line + p.character ≤ bound) :
      p.toOuter ⟨line, 0⟩ = .ok (p.mapLines (line + ·)) := by
    have outer := Position.placedAt_lineStart p line
    rw [Position.toOuter_of_lt (by rw [outer]; simp only; omega) (by rw [outer]; simp only; omega),
      outer]
    rfl
  exact toOuter_of_ordered ordered (moved start) (moved stop)

section Moved

variable {script : Document} {line count : Nat} (fits : line + count + script.size < wordLimit)

include fits

/-- A span of a script is found further down if the script begins further down,
    and refused or left out in the same cases. -/
theorem Document.outerRange?_add (span : Span) :
    script.outerRange? ⟨line + count, 0⟩ span =
      (script.outerRange? ⟨line, 0⟩ span).map (Option.map (Range.mapLines (· + count))) := by
  have short {offset : Nat} {p : Position} (found : script.positionAt offset = some p) :
      p.line + p.character ≤ script.size := by
    obtain ⟨_, _, rfl⟩ := (positionAfter_eq_some_iff script .origin p offset).mp found
    exact locate_le_size _ _
  unfold outerRange?
  cases atStart : script.positionAt span.start with
  | none => rfl
  | some start =>
    cases atStop : script.positionAt span.stop with
    | none => rfl
    | some stop =>
      by_cases ordered : start ≤ stop
      · have inner := Range.between_eq_ok_iff.mpr ⟨ordered, rfl⟩
        have nearFits : line + script.size < wordLimit := by omega
        have near := Range.toOuter_lineStart ⟨start, stop⟩ line nearFits ordered (short atStart)
          (short atStop)
        have far := Range.toOuter_lineStart ⟨start, stop⟩ (line + count) fits ordered
          (short atStart) (short atStop)
        simp only [inner, near, far, Checked.ok_bind]
        simp only [pure, Except.pure, Except.map, Option.map_some, Range.mapLines,
          Position.mapLines, Nat.add_right_comm line]
      · have refused : Range.between start stop = .error (.reversed start stop) := by
          rw [Range.between, if_neg ordered]
        simp only [refused]
        rfl

namespace AccessorCall

/-- The ranges of a call are so many lines further on as the script is. -/
theorem locate?_add (accessor : Accessor) (callSpan argumentSpan nameSpan : Span) :
    locate? script ⟨line + count, 0⟩ accessor callSpan argumentSpan nameSpan =
      (locate? script ⟨line, 0⟩ accessor callSpan argumentSpan nameSpan).map
        (Option.map (mapLines (· + count))) := by
  unfold locate?
  cases slice? script.text nameSpan.start nameSpan.stop with
  | none => rfl
  | some name =>
    simp only [Document.outerRange?_add fits]
    -- The three ranges are asked for in turn; the first that is missing decides.
    rcases script.outerRange? ⟨line, 0⟩ nameSpan with fault | nameRange
    · rfl
    rcases nameRange with _ | nameRange
    · rfl
    rcases script.outerRange? ⟨line, 0⟩ callSpan with fault | callRange
    · rfl
    rcases callRange with _ | callRange
    · rfl
    rcases script.outerRange? ⟨line, 0⟩ argumentSpan with fault | argumentRange
    · rfl
    rcases argumentRange with _ | argumentRange
    · rfl
    rfl

/-- So is a call that is an access. -/
theorem ofMemberCall?_add (call : MemberCall) :
    ofMemberCall? script ⟨line + count, 0⟩ call =
      (ofMemberCall? script ⟨line, 0⟩ call).map (Option.map (mapLines (· + count))) := by
  unfold ofMemberCall?
  split
  · split
    · exact locate?_add fits _ _ _ _
    · rfl
  · rfl

end AccessorCall

end Moved

/-- A script that begins further down has the same references further down, if
    its lines there are machine words. -/
theorem AccessorCall.referencesIn_add (reader : ScriptReader) (code : Text) {line count : Nat}
    (fits : line + count + Text.size code < wordLimit) :
    referencesIn reader code ⟨line + count, 0⟩ =
      (referencesIn reader code ⟨line, 0⟩).map
        (List.map (VariableReference.mapLines (· + count))) := by
  have calls : inCode reader code ⟨line + count, 0⟩ =
      (inCode reader code ⟨line, 0⟩).map (List.map (mapLines (· + count))) := by
    unfold inCode
    split
    · rfl
    · exact Checked.filterMap_map (fun call => ofMemberCall?_add fits call) _
  unfold referencesIn
  rw [calls]
  cases inCode reader code ⟨line, 0⟩ with
  | error fault => rfl
  | ok found =>
    simp only [Except.map, Checked.ok_bind, pure, Except.pure, List.map_map]
    rfl

end BlockMarkup
