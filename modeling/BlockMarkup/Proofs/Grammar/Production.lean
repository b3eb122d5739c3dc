import BlockMarkup.Grammar.Production
import BlockMarkup.Proofs.Grammar.Entry
import BlockMarkup.Proofs.Grammar.Header
import BlockMarkup.Proofs.Grammar.Interpolation
import BlockMarkup.Proofs.Grammar.Pattern

/-!
# The readers and the patterns

A production of the line grammar is read by looking at the text once from left to
right, and it is written down as a pattern that may be gone through in many ways.
`Production.spans?_eq_some_iff` says that the reader of each production finds what its
pattern matches, the whole and every group of it, and nothing where the pattern
matches nothing. For interpolations `Interpolation.successive_iff` says the same of
all matches in a row.

Two facts are shown of each reader. The pieces that it finds are those of the
preferred way: each class of characters stops where the reader stops, and a tilde is
left to the key only where the key would be empty without it. And pieces of any
other way, put together in another manner, are pieces that the reader would find.
-/

namespace BlockMarkup

open Pattern

/-! ## Header lines -/

/-- The characters that open a block are the two brackets. -/
theorem opensBlock_iff {c : Char} :
    opensBlock c = true ↔ ∃ bracket : Bracket, c = bracket.opening := by
  constructor
  · intro opened
    rcases (Bool.or_eq_true _ _).mp opened with curly | square
    · exact ⟨.curly, beq_iff_eq.mp curly⟩
    · exact ⟨.square, beq_iff_eq.mp square⟩
  · rintro ⟨bracket, rfl⟩
    cases bracket <;> decide

/-- An opening bracket is one byte. -/
theorem Bracket.utf8Size_opening (bracket : Bracket) : bracket.opening.utf8Size = 1 := by
  cases bracket <;> decide

namespace HeaderLine

/-- The preferred way through a header line takes the pieces that it is made of. -/
theorem Fits.first?_eq {header : HeaderLine} (fits : header.Fits) :
    Production.header.pattern.first? ⟨0, header.text⟩ =
      some ⟨[header.nameSpan, header.bracketSpan], ⟨Text.size header.text, []⟩⟩ := by
  have stops := Text.stops_of_blanks (fun c => isBlank_of_isNameChar (c := c)) fits.gap
    header.bracket.isNameChar_opening header.trail
  have opened : opensBlock header.bracket.opening = true := opensBlock_iff.mpr ⟨_, rfl⟩
  have solid : ∀ c, (header.bracket.opening :: header.trail).head? = some c →
      isBlank c = false := by
    rintro c ⟨⟩
    exact header.bracket.isBlank_opening
  have named := Text.stops_unbroken fits.filled fits.unbroken
    (header.gap ++ header.bracket.opening :: header.trail)
  -- The first way is put together from its last step to its first.
  have trail (offset : Nat) :=
    first?_cons (PatternStep.prefers_any_whole offset fits.trail) (first?_stop _)
  have bracket (offset : Nat) :=
    first?_cons (PatternStep.prefers_one offset _ header.trail opened).group (trail _)
  have gap (offset : Nat) := first?_cons (PatternStep.prefers_any offset fits.gap solid) (bracket _)
  have name (offset : Nat) := first?_cons
    (PatternStep.prefers_some offset fits.filled fits.nameChars stops).group (gap _)
  have lead := first?_cons (PatternStep.prefers_any 0 fits.lead named) (name _)
  rw [text_eq, Production.pattern, first?_start _ lead]
  simp [Way.behind, PatternStep.spans, nameSpan, bracketSpan, Span.ofLength,
    header.bracket.utf8Size_opening, Nat.add_assoc]

/-- Where there is a way through the pattern, there are pieces of a header line. -/
theorem exists_fits_of_applies {line : Text}
    (applies : Production.header.pattern.Applies ⟨0, line⟩) :
    ∃ header : HeaderLine, header.Fits ∧ header.text = line := by
  obtain ⟨_, _, rfl, ⟨_, rfl⟩, applies⟩ := applies_cons_iff.mp applies
  obtain ⟨lead, _, rfl, leadBlank, applies⟩ := applies_cons_iff.mp applies
  obtain ⟨name, _, rfl, ⟨filled, nameChars⟩, applies⟩ := applies_cons_iff.mp applies
  obtain ⟨gap, _, rfl, gapBlank, applies⟩ := applies_cons_iff.mp applies
  obtain ⟨_, _, rfl, ⟨c, rfl, opened⟩, applies⟩ := applies_cons_iff.mp applies
  obtain ⟨trail, _, rfl, trailBlank, applies⟩ := applies_cons_iff.mp applies
  obtain ⟨_, _, rfl, ⟨rfl, rfl⟩, _⟩ := applies_cons_iff.mp applies
  obtain ⟨bracket, rfl⟩ := opensBlock_iff.mp opened
  refine ⟨⟨lead, name, gap, bracket, trail⟩,
    ⟨leadBlank, (isBlockName_iff name).mpr ⟨filled, nameChars⟩, gapBlank, trailBlank⟩, ?_⟩
  simp [text]

/-- A line is read as a header where the pattern matches, with the same spans. -/
theorem spans?_eq_some_iff (line : Text) (spans : List Span) :
    Production.header.spans? line = some spans ↔
      Production.header.pattern.LeftmostFirst line spans := by
  refine map_eq_some_iff_leftmostFirst
    (fun header : HeaderLine => [header.nameSpan, header.bracketSpan]) ?_ ?_ spans
  · intro header found
    have first := (fits_of_read? found).first?_eq
    rwa [text_of_read? found] at first
  · intro applies
    obtain ⟨header, fits, rfl⟩ := exists_fits_of_applies applies
    exact ⟨header, fits.read?_text⟩

end HeaderLine

/-! ## Names of blocks -/

/-- A text is the name of a block where the pattern matches. -/
theorem isBlockName_spans?_eq_some_iff (text : Text) (spans : List Span) :
    Production.blockName.spans? text = some spans ↔
      Production.blockName.pattern.LeftmostFirst text spans := by
  have read : Production.blockName.spans? text =
      (if isBlockName text then some () else none).map fun _ => [⟨0, Text.size text⟩] := by
    by_cases named : isBlockName text = true
    · simp [Production.spans?, named]
    · simp [Production.spans?, named]
  rw [read]
  refine map_eq_some_iff_leftmostFirst (fun _ : Unit => []) ?_ ?_ spans
  · intro _ found
    have named : isBlockName text = true := by
      by_contra unnamed
      rw [if_neg unnamed] at found
      cases found
    obtain ⟨filled, nameChars⟩ := (isBlockName_iff text).mp named
    have name := first?_cons (PatternStep.prefers_some_whole 0 filled nameChars) (first?_stop _)
    rw [first?_start _ name, Nat.zero_add]
    rfl
  · intro applies
    obtain ⟨_, _, rfl, ⟨_, rfl⟩, applies⟩ := applies_cons_iff.mp applies
    obtain ⟨name, _, rfl, kind, applies⟩ := applies_cons_iff.mp applies
    obtain ⟨_, _, rfl, ⟨rfl, rfl⟩, _⟩ := applies_cons_iff.mp applies
    have named : isBlockName name = true := (isBlockName_iff name).mpr kind
    refine ⟨(), ?_⟩
    simp [named]

/-! ## Field lines -/

/-- The preferred way takes a tilde as a mark, unless the rest of the pattern cannot go on
    without it. -/
theorem Pattern.first?_mark {later : Pattern} {disabled : Bool} {offset : Nat} {text : Text}
    {way : Way}
    (blocked : disabled = false → ∀ rest, text = '~' :: rest → ¬ Applies later ⟨offset + 1, rest⟩)
    (onward : first? later ⟨offset + Text.size (markText disabled), text⟩ = some way) :
    first? (.group (.optional (· == '~')) :: later) ⟨offset, markText disabled ++ text⟩ =
      some (way.behind [⟨offset, offset + Text.size (markText disabled)⟩]) := by
  cases disabled with
  | true =>
    exact first?_cons
      (PatternStep.prefers_optional offset '~' text (beq_self_eq_true '~')).group onward
  | false =>
    refine first?_optional ?_ onward
    intro c rest begins tilde
    obtain rfl : c = '~' := beq_iff_eq.mp tilde
    exact blocked rfl rest begins

/-- What the step of the mark takes is a mark. -/
theorem PatternStep.exists_eq_markText {offset : Nat} {mark rest : Text}
    (taken : (group (optional (· == '~'))).Allows offset mark rest) :
    ∃ disabled, mark = markText disabled := by
  rcases taken with rfl | ⟨c, rfl, tilde⟩
  · exact ⟨false, rfl⟩
  · obtain rfl : c = '~' := beq_iff_eq.mp tilde
    exact ⟨true, rfl⟩

namespace FieldLine

/-- The key has at least one character. -/
theorem Fits.key_ne_nil {field : FieldLine} (fits : field.Fits) : field.key ≠ [] := by
  have split := fits.mark
  intro empty
  rw [splitMark.eq_def] at split
  split at split
  · next c rest _ =>
    have key := (Prod.mk.inj split).2
    rw [empty] at key
    cases key
  · exact fits.key ((Prod.mk.inj split).2.trans empty)

/-- A key that is not disabled begins with a tilde only if it is nothing else. -/
theorem Fits.key_of_tilde {field : FieldLine} (fits : field.Fits) (enabled : field.disabled = false)
    {rest : Text} (tilde : field.key = '~' :: rest) : rest = [] := by
  have split := fits.mark
  rw [marked, enabled, tilde] at split
  cases rest with
  | nil => rfl
  | cons c rest => cases (Prod.mk.inj split).1

/-- The preferred way through a field line takes the pieces that it is made of. -/
theorem Fits.first?_eq {field : FieldLine} (fits : field.Fits) :
    Production.field.pattern.first? ⟨0, field.text⟩ =
      some ⟨[field.markSpan, field.keySpan, field.valueSpan], ⟨Text.size field.text, []⟩⟩ := by
  have stops := Text.stops_of_blanks (fun c => isBlank_of_isKeyChar (c := c)) fits.gap
    (c := ':') (by decide) field.value
  have solid : ∀ c, (':' :: field.value).head? = some c → isBlank c = false := by
    rintro c ⟨⟩
    decide
  have keyChars : field.key.all isKeyChar = true := by
    have whole := fits.keyChars
    rw [marked, List.all_append] at whole
    exact (Bool.and_eq_true _ _).mp whole |>.2
  have lined : field.value.all (· != '\n') = true := by
    rw [List.all_eq_true]
    intro c member
    exact bne_iff_ne.mpr fun same => fits.value (same ▸ member)
  have marked := Text.stops_unbroken fits.key fits.unbroken (field.gap ++ ':' :: field.value)
  rw [FieldLine.marked, List.append_assoc] at marked
  -- A key that begins with a tilde but has no mark is that tilde alone. If the tilde were taken
  -- as a mark, no character would be left for the key.
  have blocked (later : Pattern) (offset : Nat) (enabled : field.disabled = false) (rest : Text)
      (tilde : field.key ++ (field.gap ++ ':' :: field.value) = '~' :: rest) :
      ¬ Applies (.group (.some isKeyChar) :: later) ⟨offset, rest⟩ := by
    obtain ⟨c, others, key⟩ := List.exists_cons_of_ne_nil fits.key_ne_nil
    rw [key, List.cons_append] at tilde
    obtain ⟨rfl, rfl⟩ := List.cons.inj tilde
    rw [fits.key_of_tilde enabled key, List.nil_append]
    exact not_applies_some stops
  have value (offset : Nat) :=
    first?_cons (PatternStep.prefers_any_whole offset lined).group (first?_stop _)
  have colon (offset : Nat) :=
    first?_cons (PatternStep.prefers_same offset ':' field.value) (value _)
  have gap (offset : Nat) := first?_cons (PatternStep.prefers_any offset fits.gap solid) (colon _)
  have key (offset : Nat) := first?_cons
    (PatternStep.prefers_some offset fits.key_ne_nil keyChars stops).group (gap _)
  have mark (offset : Nat) := first?_mark (blocked _ (offset + 1)) (key _)
  have lead := first?_cons (PatternStep.prefers_any 0 fits.lead marked) (mark _)
  have parts : field.text = field.lead ++ (markText field.disabled ++
      (field.key ++ (field.gap ++ ':' :: field.value))) := by
    simp only [text, List.append_assoc]
  have colonSize : ':'.utf8Size = 1 := by decide
  rw [parts, Production.pattern, first?_start _ lead]
  simp [Way.behind, PatternStep.spans, markSpan, keySpan, valueSpan, Span.ofLength, colonSize,
    Nat.add_assoc]

/-- Where there is a way through the pattern, there are pieces of a field line. -/
theorem exists_fits_of_applies {line : Text}
    (applies : Production.field.pattern.Applies ⟨0, line⟩) :
    ∃ field : FieldLine, field.Fits ∧ field.text = line := by
  obtain ⟨_, _, rfl, ⟨_, rfl⟩, applies⟩ := applies_cons_iff.mp applies
  obtain ⟨lead, _, rfl, leadBlank, applies⟩ := applies_cons_iff.mp applies
  obtain ⟨mark, _, rfl, markKind, applies⟩ := applies_cons_iff.mp applies
  obtain ⟨key, _, rfl, ⟨filled, keyChars⟩, applies⟩ := applies_cons_iff.mp applies
  obtain ⟨gap, _, rfl, gapBlank, applies⟩ := applies_cons_iff.mp applies
  obtain ⟨_, _, rfl, ⟨c, rfl, colon⟩, applies⟩ := applies_cons_iff.mp applies
  obtain ⟨value, _, rfl, lined, applies⟩ := applies_cons_iff.mp applies
  obtain ⟨_, _, rfl, ⟨rfl, rfl⟩, _⟩ := applies_cons_iff.mp applies
  obtain rfl : c = ':' := beq_iff_eq.mp colon
  -- However the tilde was taken, the pieces have it where the reader looks for it.
  have whole := markText_append_splitMark (mark ++ key)
  have markChars : mark.all isKeyChar = true := by
    obtain ⟨disabled, rfl⟩ := PatternStep.exists_eq_markText markKind
    cases disabled <;> decide
  refine ⟨⟨lead, (splitMark (mark ++ key)).1, (splitMark (mark ++ key)).2, gap, value⟩,
    ⟨leadBlank, ?_, ?_, ?_, gapBlank, ?_⟩, ?_⟩
  · rw [marked, whole]
    exact List.append_ne_nil_of_right_ne_nil mark filled
  · rw [marked, whole, List.all_append, markChars, keyChars, Bool.and_true]
  · rw [marked, whole]
  · intro member
    exact absurd (List.all_eq_true.mp lined _ member) (by decide)
  · have front : markText (splitMark (mark ++ key)).1 ++
        ((splitMark (mark ++ key)).2 ++ (gap ++ ':' :: value)) =
          mark ++ (key ++ (gap ++ ':' :: value)) := by
      rw [← List.append_assoc, whole, List.append_assoc]
    simp [text, front]

/-- A line is read as a field where the pattern matches, with the same spans. -/
theorem spans?_eq_some_iff (line : Text) (spans : List Span) :
    Production.field.spans? line = some spans ↔
      Production.field.pattern.LeftmostFirst line spans := by
  refine map_eq_some_iff_leftmostFirst
    (fun field : FieldLine => [field.markSpan, field.keySpan, field.valueSpan]) ?_ ?_ spans
  · intro field found
    have first := (fits_of_read? found).first?_eq
    rwa [text_of_read? found] at first
  · intro applies
    obtain ⟨field, fits, rfl⟩ := exists_fits_of_applies applies
    exact ⟨field, fits.read?_text⟩

end FieldLine

/-! ## Entry lines -/

namespace EntryLine

/-- The steps of the pattern of an entry line, one by one. -/
theorem entryPattern_eq (place : EntryPlace) :
    Production.entryPattern place =
      .start :: .any isBlank :: .group (.optional (· == '~')) :: .group (.any isEntryChar) ::
        .any isBlank :: (Production.terminator place ++ [.stop]) :=
  rfl

/-- The last steps take what ends the line. -/
theorem first?_terminator (place : EntryPlace) (offset : Nat) :
    first? (Production.terminator place ++ [.stop]) ⟨offset, place.terminator⟩ =
      some ⟨[], ⟨offset + Text.size place.terminator, []⟩⟩ := by
  cases place with
  | inner => exact first?_cons (PatternStep.prefers_same offset ',' []) (first?_stop _)
  | last => rfl

/-- The last steps take nothing else. -/
theorem eq_terminator_of_applies {place : EntryPlace} {offset : Nat} {text : Text}
    (applies : Applies (Production.terminator place ++ [.stop]) ⟨offset, text⟩) :
    text = place.terminator := by
  cases place with
  | inner =>
    obtain ⟨_, _, rfl, ⟨c, rfl, comma⟩, applies⟩ := applies_cons_iff.mp applies
    obtain ⟨_, _, rfl, ⟨rfl, rfl⟩, _⟩ := applies_cons_iff.mp applies
    obtain rfl : c = ',' := beq_iff_eq.mp comma
    rfl
  | last =>
    obtain ⟨_, _, rfl, ⟨rfl, rfl⟩, _⟩ := applies_cons_iff.mp applies
    rfl

/-- The preferred way through an entry line takes the pieces that it is made of. -/
theorem Fits.first?_eq {line : EntryLine} (fits : line.Fits) (place : EntryPlace) :
    (Production.entryPattern place).first? ⟨0, line.text place⟩ =
      some ⟨[line.markSpan, line.entrySpan], ⟨Text.size (line.text place), []⟩⟩ := by
  have ended : ∀ c, place.terminator.head? = some c → isBlank c = false := by
    intro c first
    rw [EntryPlace.head?_terminator first]
    decide
  have solid := Text.stops_of_trimStart (fits.trimStart_behind place)
  have split := fits.splitEntryMark_marked place
  rw [marked, List.append_assoc] at solid split
  -- An entry may be empty, so a tilde at the front is always the mark.
  have blocked (later : Pattern) (offset : Nat) (enabled : line.disabled = false) (rest : Text)
      (tilde : line.entry ++ (line.gap ++ place.terminator) = '~' :: rest) :
      ¬ Applies later ⟨offset, rest⟩ := by
    rw [enabled, tilde] at split
    cases (Prod.mk.inj split).1
  have gap (offset : Nat) := first?_cons (PatternStep.prefers_any offset fits.gap ended)
    (first?_terminator place _)
  have entry (offset : Nat) := first?_cons
    (PatternStep.prefers_any offset fits.entryChars (fits.stops place)).group (gap _)
  have mark (offset : Nat) := first?_mark (blocked _ (offset + 1)) (entry _)
  have lead := first?_cons (PatternStep.prefers_any 0 fits.lead solid) (mark _)
  have parts : line.text place = line.lead ++ (markText line.disabled ++
      (line.entry ++ (line.gap ++ place.terminator))) := by
    simp only [text, List.append_assoc]
  rw [parts, entryPattern_eq, first?_start _ lead]
  simp [Way.behind, PatternStep.spans, markSpan, entrySpan, Span.ofLength, Nat.add_assoc]

/-- Where there is a way through the pattern, there are pieces of an entry line. -/
theorem exists_fits_of_applies {place : EntryPlace} {content : Text}
    (applies : (Production.entryPattern place).Applies ⟨0, content⟩) :
    ∃ line : EntryLine, line.Fits ∧ line.text place = content := by
  rw [entryPattern_eq] at applies
  obtain ⟨_, _, rfl, ⟨_, rfl⟩, applies⟩ := applies_cons_iff.mp applies
  obtain ⟨lead, _, rfl, leadBlank, applies⟩ := applies_cons_iff.mp applies
  obtain ⟨mark, _, rfl, markKind, applies⟩ := applies_cons_iff.mp applies
  obtain ⟨entry, _, rfl, entryChars, applies⟩ := applies_cons_iff.mp applies
  obtain ⟨gap, _, rfl, gapBlank, applies⟩ := applies_cons_iff.mp applies
  obtain rfl := eq_terminator_of_applies applies
  have leadBlank : Text.allBlank lead = true := leadBlank
  have gapBlank : Text.allBlank gap = true := gapBlank
  obtain ⟨disabled, rfl⟩ := PatternStep.exists_eq_markText markKind
  by_cases empty : markText disabled ++ entry = []
  · -- All blanks stand in front of an empty entry, wherever the steps divide them.
    obtain ⟨unmarked, rfl⟩ := List.append_eq_nil_iff.mp empty
    refine ⟨⟨lead ++ gap, disabled, [], []⟩, ⟨?_, rfl, rfl, fun _ => rfl⟩, ?_⟩
    · exact List.all_append.trans (by rw [leadBlank, gapBlank]; rfl)
    · simp [text, unmarked]
  · refine ⟨⟨lead, disabled, entry, gap⟩, ⟨leadBlank, entryChars, gapBlank, ?_⟩, ?_⟩
    · exact fun none => absurd none empty
    · simp [text]

/-- A line is read as an entry where the pattern matches, with the same spans. -/
theorem map_read?_eq_some_iff (place : EntryPlace) (content : Text) (spans : List Span) :
    ((read? place content).map fun line =>
        [⟨0, Text.size content⟩, line.markSpan, line.entrySpan]) = some spans ↔
      (Production.entryPattern place).LeftmostFirst content spans := by
  rw [entryPattern_eq]
  refine map_eq_some_iff_leftmostFirst
    (fun line : EntryLine => [line.markSpan, line.entrySpan]) ?_ ?_ spans
  · intro line found
    have first := (fits_of_read? found).first?_eq place
    rwa [text_of_read? found] at first
  · intro applies
    obtain ⟨line, fits, rfl⟩ := exists_fits_of_applies applies
    exact ⟨line, fits.read?_text place⟩

end EntryLine

/-! ## Interpolations -/

namespace Interpolation

/-- The spans of an interpolation: with its braces, and of its name alone. -/
def spans (found : Interpolation) : List Span :=
  [found.wholeSpan, found.nameSpan]

/-- An opening brace is one byte, and so is a closing one. -/
theorem utf8Size_braces : '{'.utf8Size = 1 ∧ '}'.utf8Size = 1 := by
  decide

/-- A way takes the name at the start of a text and its braces. -/
theorem first?_of_parts {text name after : Text} (offset : Nat)
    (filled : name ≠ []) (named : ∀ c ∈ name, isVariableChar c = true)
    (parted : text = '{' :: '{' :: (name ++ '}' :: '}' :: after)) :
    Production.interpolation.pattern.first? ⟨offset, text⟩ =
      some ⟨[⟨offset + 2, offset + 2 + Text.size name⟩], ⟨offset + 4 + Text.size name, after⟩⟩ := by
  have stops : ∀ c, ('}' :: '}' :: after).head? = some c → isVariableChar c = false := by
    rintro c ⟨⟩
    decide
  have ended (offset : Nat) : first? [] ⟨offset, after⟩ = some ⟨[], ⟨offset, after⟩⟩ := rfl
  have outer (offset : Nat) := first?_cons (PatternStep.prefers_same offset '}' after) (ended _)
  have inner (offset : Nat) := first?_cons (PatternStep.prefers_same offset '}' _) (outer _)
  have name (offset : Nat) := first?_cons
    (PatternStep.prefers_some offset filled (List.all_eq_true.mpr named) stops).group (inner _)
  have second (offset : Nat) := first?_cons (PatternStep.prefers_same offset '{' _) (name _)
  have first := first?_cons (PatternStep.prefers_same offset '{' _) (second _)
  rw [parted, Production.pattern, first]
  simp [Way.behind, PatternStep.spans, utf8Size_braces]
  omega

/-- Where there is a way through the pattern, a name in braces begins the text. -/
theorem exists_nameAtStart?_of_applies {offset : Nat} {text : Text}
    (applies : Production.interpolation.pattern.Applies ⟨offset, text⟩) :
    ∃ name, nameAtStart? text = some name := by
  obtain ⟨_, _, rfl, ⟨a, rfl, first⟩, applies⟩ := applies_cons_iff.mp applies
  obtain ⟨_, _, rfl, ⟨b, rfl, second⟩, applies⟩ := applies_cons_iff.mp applies
  obtain ⟨name, _, rfl, ⟨filled, named⟩, applies⟩ := applies_cons_iff.mp applies
  obtain ⟨_, _, rfl, ⟨c, rfl, third⟩, applies⟩ := applies_cons_iff.mp applies
  obtain ⟨_, after, rfl, ⟨d, rfl, fourth⟩, _⟩ := applies_cons_iff.mp applies
  obtain rfl : a = '{' := beq_iff_eq.mp first
  obtain rfl : b = '{' := beq_iff_eq.mp second
  obtain rfl : c = '}' := beq_iff_eq.mp third
  obtain rfl : d = '}' := beq_iff_eq.mp fourth
  refine ⟨name, nameAtStart?_eq_some_iff.mpr ⟨filled, List.all_eq_true.mp named, after, ?_⟩⟩
  simp

/-- From the end of a text there is no match. -/
theorem not_firstMatch_nil (offset : Nat) (spans : List Span) (after : Place) :
    ¬ Production.interpolation.pattern.FirstMatch ⟨offset, []⟩ spans after := by
  intro first
  cases first with
  | here found => cases found

/-- What a name in braces leaves of a text. -/
theorem drop_of_nameAtStart? {c : Char} {rest name after : Text}
    (parted : c :: rest = '{' :: '{' :: (name ++ '}' :: '}' :: after)) :
    rest.take (name.length + 3) = '{' :: (name ++ ['}', '}']) ∧
      rest.drop (name.length + 3) = after := by
  obtain ⟨_, rfl⟩ := List.cons.inj parted
  have whole : '{' :: (name ++ '}' :: '}' :: after) = ('{' :: (name ++ ['}', '}'])) ++ after := by
    simp
  have length : ('{' :: (name ++ ['}', '}'])).length = name.length + 3 := by simp
  rw [whole, ← length]
  exact ⟨List.take_left, List.drop_left⟩

/-- A scan finds the matches of the pattern in a row. What it still has to pass over is
    behind it already. -/
theorem successive_scanFrom (offset skip : Nat) (text : Text) :
    Production.interpolation.pattern.Successive
      ⟨offset + Text.size (text.take skip), text.drop skip⟩
      ((scanFrom offset skip text).map spans) := by
  fun_induction scanFrom offset skip text with
  | case1 offset skip =>
    rw [List.take_nil, List.drop_nil]
    exact .ended (not_firstMatch_nil _)
  | case2 offset skip c rest hypothesis =>
    rwa [List.take_succ_cons, List.drop_succ_cons, Text.size_cons, ← Nat.add_assoc]
  | case3 offset c rest name found hypothesis =>
    obtain ⟨filled, named, _⟩ := nameAtStart?_eq_some_iff.mp found
    obtain ⟨after, parted⟩ := parts_of_nameAtStart? found
    obtain ⟨taken, left⟩ := drop_of_nameAtStart? parted
    have first := FirstMatch.here (first?_of_parts offset filled named parted)
    obtain rfl : c = '{' := (List.cons.inj parted).1
    have behind : offset + '{'.utf8Size + Text.size ('{' :: (name ++ ['}', '}'])) =
        offset + 4 + Text.size name := by
      simp only [Text.size_cons, Text.size_append, Text.size_nil, utf8Size_braces]
      omega
    have whole : spans ⟨name, offset + 2⟩ =
        [⟨offset, offset + 4 + Text.size name⟩, ⟨offset + 2, offset + 2 + Text.size name⟩] := by
      simp only [spans, wholeSpan, nameSpan, Span.ofLength, Nat.add_sub_cancel]
      rw [Nat.add_right_comm]
    rw [taken, left, behind] at hypothesis
    rw [List.map_cons, whole]
    exact .found first hypothesis
  | case4 offset c rest missing hypothesis =>
    refine .skip ?_ hypothesis
    rw [first?_eq_none_iff]
    intro applies
    obtain ⟨name, named⟩ := exists_nameAtStart?_of_applies applies
    rw [missing] at named
    cases named

/-- The scan of a text finds the matches of the pattern in a row, and no other row of
    matches is there. -/
theorem successive_iff (text : Text) (found : List (List Span)) :
    Production.interpolation.pattern.Successive ⟨0, text⟩ found ↔
      found = (scan text).map spans := by
  have scanned : Production.interpolation.pattern.Successive ⟨0, text⟩ ((scan text).map spans) :=
    successive_scanFrom 0 0 text
  constructor
  · intro successive
    exact successive.unique scanned
  · rintro rfl
    exact scanned

/-- The first interpolation is the one that the pattern matches. -/
theorem spans?_eq_some_iff (text : Text) (spans : List Span) :
    Production.interpolation.spans? text = some spans ↔
      Production.interpolation.pattern.LeftmostFirst text spans := by
  have scanned := (successive_iff text _).mpr rfl
  rw [← scanned.head?_eq_some_iff, List.head?_map]
  rfl

end Interpolation

/-! ## All productions -/

/-- What the reader of a production finds in a text is what its pattern matches there: the
    preferred way from the first place that has one. -/
theorem Production.spans?_eq_some_iff (production : Production) (text : Text) (spans : List Span) :
    production.spans? text = some spans ↔ production.pattern.LeftmostFirst text spans := by
  cases production with
  | header => exact HeaderLine.spans?_eq_some_iff text spans
  | blockName => exact isBlockName_spans?_eq_some_iff text spans
  | field => exact FieldLine.spans?_eq_some_iff text spans
  | innerEntry => exact EntryLine.map_read?_eq_some_iff .inner text spans
  | lastEntry => exact EntryLine.map_read?_eq_some_iff .last text spans
  | interpolation => exact Interpolation.spans?_eq_some_iff text spans

/-- A tilde alone is the key, since a key has at least one character, and of two tildes
    the first is the mark. -/
example :
    Production.field.pattern.first? ⟨0, "~:".toList⟩ =
        some ⟨[⟨0, 0⟩, ⟨0, 1⟩, ⟨2, 2⟩], ⟨2, []⟩⟩ ∧
      Production.field.pattern.first? ⟨0, "~~:".toList⟩ =
        some ⟨[⟨0, 1⟩, ⟨1, 2⟩, ⟨3, 3⟩], ⟨3, []⟩⟩ :=
  ⟨rfl, rfl⟩

end BlockMarkup
