import BlockMarkup.Proofs.Document.Conversion
import BlockMarkup.Proofs.Position.Translation

/-!
# The innermost call at a position

Of the accessor calls around a position the one that begins last is taken, and of
several that begin together the one that is listed last. It is an innermost one if
whoever reads scripts lists a call before every call strictly inside it: a call
that begins later is not around one that begins earlier, and of calls that begin
together the later in the list is not around the earlier.

The order asked for is that of ranges. Not every member call is an accessor call,
and ranges in the script become ranges in the document; neither changes what is
around what. The order of spans is enough as long as no call begins or ends
inside a break. There a span that begins later may have the same start as a
range.
-/

namespace BlockMarkup

open Text

/-! ## Ranges of spans -/

/-- The place in the containing text of a range in a text that begins at
    `start`. -/
def Range.placedAt (range : Range) (start : Position) : Range :=
  ⟨range.start.placedAt start, range.stop.placedAt start⟩

/-- The range of a span of a text, if the text has it. -/
def Document.rangeOf? (document : Document) (span : Span) : Option Range := do
  let start ← document.positionAt span.start
  let stop ← document.positionAt span.stop
  return ⟨start, stop⟩

/-- Moves keep what is strictly inside what. -/
theorem Range.strictlyContains_of_placedAt {range other : Range} {start : Position}
    (strict : (range.placedAt start).StrictlyContains (other.placedAt start)) :
    range.StrictlyContains other := by
  obtain ⟨within, differ⟩ := strict
  rw [containsRange_iff] at within
  refine ⟨containsRange_iff.mpr ?_, fun same => differ (by rw [same])⟩
  exact ⟨Position.le_of_placedAt_le_placedAt within.1, Position.le_of_placedAt_le_placedAt within.2⟩

namespace Document

/-- A span that has a range lies in the document, and its ends are located there. -/
theorem rangeOf?_eq_some {document : Document} {span : Span} {range : Range}
    (found : document.rangeOf? span = some range) :
    span.start ≤ document.size ∧ span.stop ≤ document.size ∧
      range = ⟨locate document.text span.start, locate document.text span.stop⟩ := by
  obtain ⟨start, startFound, found⟩ := Option.bind_eq_some_iff.mp found
  obtain ⟨stop, stopFound, found⟩ := Option.bind_eq_some_iff.mp found
  obtain ⟨startReached, rfl⟩ := locate_of_positionAt startFound
  obtain ⟨stopReached, rfl⟩ := locate_of_positionAt stopFound
  exact ⟨startReached, stopReached, (Option.some.inj found).symm⟩

variable {script : Document} {origin : Position} {span : Span}

/-- A span whose end is not before its start has ends that stay in order. -/
theorem onlyOverflows_outerRange? (script : Document) (origin : Position)
    (ordered : span.Ordered) : Checked.OnlyOverflows (script.outerRange? origin span) := by
  unfold outerRange?
  split
  · next start stop startFound stopFound =>
    obtain ⟨_, rfl⟩ := locate_of_positionAt startFound
    obtain ⟨_, rfl⟩ := locate_of_positionAt stopFound
    have inOrder := locate_le_locate script.text ordered
    refine (Range.onlyOverflows_between inOrder).bind fun inner made => ?_
    obtain ⟨_, rfl⟩ := Range.between_eq_ok_iff.mp made
    exact (Range.onlyOverflows_toOuter origin inOrder).bind fun _ _ => Checked.onlyOverflows_ok _
  · exact Checked.onlyOverflows_ok _

/-- The range in the document is that in the script, moved. -/
theorem outerRange?_eq_some {range : Range}
    (found : script.outerRange? origin span = .ok (some range)) :
    ∃ inner, script.rangeOf? span = some inner ∧ range = inner.placedAt origin := by
  unfold outerRange? at found
  split at found
  · next start stop startFound stopFound =>
    obtain ⟨inner, made, found⟩ := Checked.bind_eq_ok_iff.mp found
    obtain ⟨_, rfl⟩ := Range.between_eq_ok_iff.mp made
    obtain ⟨outer, moved, found⟩ := Checked.bind_eq_ok_iff.mp found
    obtain ⟨first, firstMoved, moved⟩ := Checked.bind_eq_ok_iff.mp moved
    obtain ⟨last, lastMoved, moved⟩ := Checked.bind_eq_ok_iff.mp moved
    obtain ⟨_, rfl⟩ := Range.between_eq_ok_iff.mp moved
    refine ⟨⟨start, stop⟩, by simp [rangeOf?, startFound, stopFound], ?_⟩
    rw [← Option.some.inj (Checked.pure_eq_ok_iff.mp found), Position.toOuter_eq_ok firstMoved,
      Position.toOuter_eq_ok lastMoved]
    rfl
  · cases found

end Document

/-! ## The order of calls -/

/-- Whether no call that is reported is strictly around one before it. -/
def ScriptReader.OuterFirst (reader : ScriptReader) : Prop :=
  ∀ source outline, reader source = some outline →
    outline.calls.Pairwise fun earlier later => ∀ inner outer,
      (Document.ofText source).rangeOf? earlier.span = some inner →
        (Document.ofText source).rangeOf? later.span = some outer → ¬ outer.StrictlyContains inner

/-- It is enough that the spans are in that order, if no call begins or ends inside
    a break. -/
theorem ScriptReader.outerFirst_of_spans {reader : ScriptReader}
    (inOrder : ∀ source outline, reader source = some outline →
      outline.calls.Pairwise fun earlier later =>
        later.span.Contains earlier.span → later.span = earlier.span)
    (whole : ∀ source outline, reader source = some outline → ∀ call ∈ outline.calls,
      ¬ InsideBreak source call.span.start ∧ ¬ InsideBreak source call.span.stop) :
    reader.OuterFirst := by
  intro source outline reported
  refine (inOrder source outline reported).imp_of_mem ?_
  intro earlier later earlierMember laterMember sameIfAround inner outer innerFound outerFound
  obtain ⟨_, innerStop, rfl⟩ := Document.rangeOf?_eq_some innerFound
  obtain ⟨outerStart, _, rfl⟩ := Document.rangeOf?_eq_some outerFound
  rintro ⟨within, differ⟩
  obtain ⟨startsBefore, stopsBehind⟩ := Range.containsRange_iff.mp within
  have around : later.span.Contains earlier.span :=
    ⟨le_of_locate_le_locate outerStart (whole _ _ reported _ laterMember).1 startsBefore,
      le_of_locate_le_locate innerStop (whole _ _ reported _ earlierMember).2 stopsBehind⟩
  exact differ (by rw [sameIfAround around])

namespace AccessorCall

section Located

variable {script : Document} {origin : Position} {accessor : Accessor}
  {callSpan argumentSpan nameSpan : Span}

/-- Spans in order can only be too far for the numbers of a position. -/
theorem onlyOverflows_locate? (callOrdered : callSpan.Ordered)
    (argumentOrdered : argumentSpan.Ordered) (nameOrdered : nameSpan.Ordered) :
    Checked.OnlyOverflows (locate? script origin accessor callSpan argumentSpan nameSpan) := by
  unfold locate?
  split
  · exact Checked.onlyOverflows_ok _
  · refine (script.onlyOverflows_outerRange? origin nameOrdered).bind fun _ _ => ?_
    split
    · refine (script.onlyOverflows_outerRange? origin callOrdered).bind fun _ _ => ?_
      split
      · refine (script.onlyOverflows_outerRange? origin argumentOrdered).bind fun _ _ => ?_
        split
        · exact Checked.onlyOverflows_ok _
        · exact Checked.onlyOverflows_ok _
      · exact Checked.onlyOverflows_ok _
    · exact Checked.onlyOverflows_ok _

/-- The range of a call is that of its span in the script, placed at the origin. -/
theorem callRange_of_locate? {call : AccessorCall}
    (found : locate? script origin accessor callSpan argumentSpan nameSpan = .ok (some call)) :
    ∃ inner, script.rangeOf? callSpan = some inner ∧ call.callRange = inner.placedAt origin := by
  unfold locate? at found
  split at found
  · cases found
  · obtain ⟨_, _, found⟩ := Checked.bind_eq_ok_iff.mp found
    split at found
    · obtain ⟨callRange, called, found⟩ := Checked.bind_eq_ok_iff.mp found
      split at found
      · obtain ⟨_, _, found⟩ := Checked.bind_eq_ok_iff.mp found
        split at found
        · cases found
          exact Document.outerRange?_eq_some called
        · cases found
      · cases found
    · cases found

end Located

/-- A call with spans in order can only be too far as well. -/
theorem onlyOverflows_ofMemberCall? (script : Document) (origin : Position) {call : MemberCall}
    (ordered : call.Ordered) : Checked.OnlyOverflows (ofMemberCall? script origin call) := by
  unfold ofMemberCall?
  split
  · split
    · next accessor whole value _ literal =>
      obtain ⟨wholeOrdered, valueOrdered⟩ := ordered.argument _ literal
      exact onlyOverflows_locate? ordered.span wholeOrdered valueOrdered
    · exact Checked.onlyOverflows_ok _
  · exact Checked.onlyOverflows_ok _

/-- An accessor call has the range of its member call, moved. -/
theorem callRange_of_ofMemberCall? {script : Document} {origin : Position} {made : MemberCall}
    {call : AccessorCall} (found : ofMemberCall? script origin made = .ok (some call)) :
    ∃ inner, script.rangeOf? made.span = some inner ∧ call.callRange = inner.placedAt origin := by
  unfold ofMemberCall? at found
  split at found
  · split at found
    · exact callRange_of_locate? found
    · cases found
  · cases found

variable {reader : ScriptReader} {code : Text} {origin p : Position}

/-- So can the calls that an ordered reader reports, taken together. -/
theorem onlyOverflows_inCode (ordered : reader.Ordered) (code : Text) (origin : Position) :
    Checked.OnlyOverflows (inCode reader code origin) := by
  unfold inCode
  split
  · exact Checked.onlyOverflows_ok _
  · next outline reported =>
    apply Checked.OnlyOverflows.filterMap
    intro call member
    exact onlyOverflows_ofMemberCall? _ origin (ordered code outline reported call member)

/-- No accessor call is strictly around one before it, whatever member calls are
    left out between them. -/
theorem pairwise_inCode (outerFirst : reader.OuterFirst) {calls : List AccessorCall}
    (listed : inCode reader code origin = .ok calls) :
    calls.Pairwise fun earlier later =>
      ¬ later.callRange.StrictlyContains earlier.callRange := by
  unfold inCode at listed
  split at listed
  · cases listed
    exact .nil
  · next outline reported =>
    refine Checked.pairwise_of_filterMap listed ?_ (outerFirst code outline reported)
    intro first last notAround earlier later earlierFound laterFound strict
    obtain ⟨inner, innerFound, innerMoved⟩ := callRange_of_ofMemberCall? earlierFound
    obtain ⟨outer, outerFound, outerMoved⟩ := callRange_of_ofMemberCall? laterFound
    rw [innerMoved, outerMoved] at strict
    exact notAround inner outer innerFound outerFound (Range.strictlyContains_of_placedAt strict)

/-! ## The call that begins last -/

/-- Some call is the latest unless there are none. -/
theorem latest?_eq_none_iff {calls : List AccessorCall} : latest? calls = none ↔ calls = [] := by
  cases calls with
  | nil => simp [latest?]
  | cons call rest =>
    simp only [latest?, reduceCtorEq, iff_false]
    split
    · exact Option.some_ne_none call
    · split <;> exact Option.some_ne_none _

/-- The call that is taken begins no earlier than those before it in the list, and
    those after it begin earlier. -/
theorem parts_of_latest? {calls : List AccessorCall} {call : AccessorCall}
    (taken : latest? calls = some call) :
    ∃ before after, calls = before ++ call :: after ∧
      (∀ other ∈ before, other.callRange.start ≤ call.callRange.start) ∧
      ∀ other ∈ after, ¬ call.callRange.start ≤ other.callRange.start := by
  induction calls generalizing call with
  | nil => cases taken
  | cons first rest hypothesis =>
    unfold latest? at taken
    split at taken
    · next nothing =>
      cases taken
      rw [latest?_eq_none_iff.mp nothing]
      exact ⟨[], [], rfl, by simp, by simp⟩
    · next later found =>
      obtain ⟨before, after, rfl, notLater, earlier⟩ := hypothesis found
      split at taken
      · next firstNotLater =>
        cases taken
        exact ⟨first :: before, after, rfl, List.forall_mem_cons.mpr ⟨firstNotLater, notLater⟩,
          earlier⟩
      · next firstLater =>
        cases taken
        refine ⟨[], _, rfl, by simp, ?_⟩
        intro other member firstNotLater
        -- Nothing in the rest begins later than what is taken of the rest.
        have notAfter : other.callRange.start ≤ later.callRange.start := by
          rcases List.mem_append.mp member with inBefore | inAfter
          · exact notLater other inBefore
          · rcases List.mem_cons.mp inAfter with rfl | behind
            · exact Position.le_refl _
            · exact Position.le_of_not_le (earlier other behind)
        exact firstLater (Position.le_trans firstNotLater notAfter)

/-- The latest call is one of the calls. -/
theorem mem_of_latest? {calls : List AccessorCall} {call : AccessorCall}
    (taken : latest? calls = some call) : call ∈ calls := by
  obtain ⟨before, after, rfl, _⟩ := parts_of_latest? taken
  exact List.mem_append_right before List.mem_cons_self

end AccessorCall

/-! ## The call at a position -/

/-- Whether the call of a hit is one of those around the position that have no other
    of them strictly inside. -/
structure AccessorHit.Innermost (hit : AccessorHit) (calls : List AccessorCall) (p : Position) :
    Prop where
  member : hit.call ∈ calls
  around : hit.call.callRange.containsInclusive p = true
  innermost : ∀ other ∈ calls, other.callRange.containsInclusive p = true →
    ¬ hit.call.callRange.StrictlyContains other.callRange
  inArgument : hit.inArgument = true ↔ hit.call.argumentRange.containsInclusive p = true

namespace AccessorCall

/-- What is taken of the calls around a position is innermost, if no call is
    strictly around one before it. -/
theorem innermost_of_latest? {calls : List AccessorCall} {call : AccessorCall} {p : Position}
    (pairwise : calls.Pairwise fun earlier later =>
      ¬ later.callRange.StrictlyContains earlier.callRange)
    (taken : latest? (calls.filter fun call => call.callRange.containsInclusive p) = some call) :
    (AccessorHit.mk call (call.argumentRange.containsInclusive p)).Innermost calls p := by
  obtain ⟨before, after, parted, _, begunEarlier⟩ := parts_of_latest? taken
  obtain ⟨member, around⟩ := List.mem_filter.mp (mem_of_latest? taken)
  refine ⟨member, around, ?_, Iff.rfl⟩
  intro other otherMember otherAround strict
  have otherHit : other ∈ before ++ call :: after := by
    rw [← parted]
    exact List.mem_filter.mpr ⟨otherMember, otherAround⟩
  rcases List.mem_append.mp otherHit with inBefore | inAfter
  · have hitsInOrder := pairwise.filter fun call => call.callRange.containsInclusive p
    rw [parted] at hitsInOrder
    exact (List.pairwise_append.mp hitsInOrder).2.2 other inBefore call List.mem_cons_self strict
  · rcases List.mem_cons.mp inAfter with rfl | behind
    · exact strict.2 rfl
    · exact begunEarlier other behind (Range.containsRange_iff.mp strict.1).1

/-- A position in code is answered with an innermost one of the accessor calls
    around it, and with nothing only if there is none. The spans of calls have to be
    in order, no call may be strictly around one before it, and the positions have to
    be machine words. -/
theorem findAt_innermost (reader : ScriptReader) (code : Text) (origin p : Position)
    (ordered : reader.Ordered) (outerFirst : reader.OuterFirst)
    (fits : inCode reader code origin ≠ .error .overflow) :
    ∃ calls references found, inCode reader code origin = .ok calls ∧
      referencesIn reader code origin = .ok references ∧
      findAt reader code origin p = .ok found ∧
      (found = none ↔ ∀ call ∈ calls, ¬ call.callRange.containsInclusive p = true) ∧
      ∀ hit, found = some hit → hit.Innermost calls p ∧ hit.call.reference ∈ references := by
  obtain ⟨calls, listed⟩ := (onlyOverflows_inCode ordered code origin).accepted fits
  have referred : referencesIn reader code origin = .ok (calls.map reference) :=
    Checked.bind_eq_ok_iff.mpr ⟨calls, listed, rfl⟩
  have answered : ∀ taken, latest? (calls.filter fun call =>
      call.callRange.containsInclusive p) = taken → findAt reader code origin p = .ok
        (taken.map fun call => ⟨call, call.argumentRange.containsInclusive p⟩) := by
    rintro taken rfl
    exact Checked.bind_eq_ok_iff.mpr ⟨calls, listed, rfl⟩
  cases taken : latest? (calls.filter fun call => call.callRange.containsInclusive p) with
  | none =>
    refine ⟨calls, _, none, listed, referred, answered none taken, ?_, by simp⟩
    rw [latest?_eq_none_iff, List.filter_eq_nil_iff] at taken
    exact ⟨fun _ => taken, fun _ => rfl⟩
  | some call =>
    have innermost := innermost_of_latest? (pairwise_inCode outerFirst listed) taken
    refine ⟨calls, _, _, listed, referred, answered _ taken, ?_, ?_⟩
    · constructor
      · intro impossible
        cases impossible
      · intro noneAround
        exact absurd innermost.around (noneAround call innermost.member)
    · rintro hit ⟨⟩
      exact ⟨innermost, List.mem_map_of_mem innermost.member⟩

/-- A call in the argument of another. -/
def callInArgument : Text := "bru.setVar('a', bru.getVar('b'))".toList

/-- Reads that one script, and reports a call of another object besides. -/
def callInArgumentReader : ScriptReader := fun source =>
  if source = callInArgument then
    some ⟨[⟨"bru".toList, "setVar".toList, ⟨0, 32⟩, some (.literal ⟨11, 14⟩ ⟨12, 13⟩)⟩,
      ⟨"res".toList, "getVar".toList, ⟨16, 31⟩, some (.literal ⟨27, 30⟩ ⟨28, 29⟩)⟩,
      ⟨"bru".toList, "getVar".toList, ⟨16, 31⟩, some (.literal ⟨27, 30⟩ ⟨28, 29⟩)⟩], false⟩
  else none

/-- At a position in the argument of the inner of two calls, the inner call is found. -/
theorem findAt_innermost_callInArgument :
    callInArgumentReader.Ordered ∧ callInArgumentReader.OuterFirst ∧
      inCode callInArgumentReader callInArgument ⟨2, 4⟩ ≠ .error .overflow ∧
      ∃ outer inner hit,
        inCode callInArgumentReader callInArgument ⟨2, 4⟩ = .ok [outer, inner] ∧
        findAt callInArgumentReader callInArgument ⟨2, 4⟩ ⟨2, 32⟩ = .ok (some hit) ∧
        hit.call = inner ∧ hit.inArgument = true ∧ hit.Innermost [outer, inner] ⟨2, 32⟩ := by
  have ordered : callInArgumentReader.Ordered := by
    intro source outline reported
    simp only [callInArgumentReader] at reported
    split at reported
    · cases reported
      decide
    · cases reported
  have outerFirst : callInArgumentReader.OuterFirst := by
    apply ScriptReader.outerFirst_of_spans
    · intro source outline reported
      simp only [callInArgumentReader] at reported
      split at reported
      · cases reported
        decide
      · cases reported
    · intro source outline reported
      simp only [callInArgumentReader] at reported
      split at reported
      · next same =>
        cases reported
        rw [same]
        decide
      · cases reported
  have evaluated : ∃ outer inner,
      inCode callInArgumentReader callInArgument ⟨2, 4⟩ = .ok [outer, inner] ∧
        findAt callInArgumentReader callInArgument ⟨2, 4⟩ ⟨2, 32⟩ = .ok (some ⟨inner, true⟩) :=
    ⟨_, _, rfl, rfl⟩
  obtain ⟨outer, inner, listed, found⟩ := evaluated
  have fits : inCode callInArgumentReader callInArgument ⟨2, 4⟩ ≠ .error .overflow := by
    rw [listed]
    rintro ⟨⟩
  obtain ⟨calls, _, answer, listedCalls, _, answered, _, innermost⟩ :=
    findAt_innermost callInArgumentReader callInArgument ⟨2, 4⟩ ⟨2, 32⟩ ordered outerFirst fits
  rw [listed] at listedCalls
  rw [found] at answered
  cases listedCalls
  cases answered
  exact ⟨ordered, outerFirst, fits, outer, inner, _, listed, found, rfl, rfl, (innermost _ rfl).1⟩

end AccessorCall

end BlockMarkup
