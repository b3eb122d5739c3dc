import BlockMarkup.Grammar.Entry
import BlockMarkup.Proofs.Grammar.Field

/-!
# Entry lines by their end

An entry line is taken apart from its start: blanks, the mark, the entry, blanks,
and a comma if the entry is not the last. The same lines and the same entries can
be told by the end of the line and by trimming. What stands before the comma, or
the whole line if the entry is the last, is trimmed to the entry with its mark.

An entry may be empty. Then blanks before it and blanks behind it cannot be told
apart, and all of them count as standing before it.
-/

namespace BlockMarkup

/-! ## The pieces of an entry line -/

/-- An entry is made of word characters, hyphens and points. -/
theorem isEntryChar_iff (c : Char) :
    isEntryChar c = true ↔ isWord c = true ∨ c = '-' ∨ c = '.' := by
  simp only [isEntryChar, Bool.or_eq_true, beq_iff_eq, or_assoc]

/-- None of them is blank. -/
theorem isBlank_of_isEntryChar {c : Char} (kind : isEntryChar c = true) : isBlank c = false := by
  rcases (isEntryChar_iff c).mp kind with word | rfl | rfl
  · exact isBlank_of_isWord word
  · decide
  · decide

/-- None of them is the mark. -/
theorem ne_tilde_of_isEntryChar {c : Char} (kind : isEntryChar c = true) : c ≠ '~' := by
  rintro rfl
  revert kind
  decide

namespace EntryPlace

/-- No blank is taken off what ends the line. -/
theorem trimStart_terminator (place : EntryPlace) :
    Text.trimStart place.terminator = place.terminator := by
  cases place <;> decide

/-- If anything ends the line, it is a comma. -/
theorem head?_terminator {place : EntryPlace} {c : Char} (first : place.terminator.head? = some c) :
    c = ',' := by
  cases place with
  | inner => exact (Option.some.inj first).symm
  | last => cases first

end EntryPlace

namespace EntryLine

/-- The entry with its mark. -/
def marked (line : EntryLine) : Text :=
  markText line.disabled ++ line.entry

/-- Whether pieces are such as an entry line has. -/
structure Fits (line : EntryLine) : Prop where
  lead : Text.allBlank line.lead = true
  entryChars : line.entry.all isEntryChar = true
  gap : Text.allBlank line.gap = true
  noGap : line.marked = [] → line.gap = []

/-- What stands before the end of the line. -/
def body (line : EntryLine) : Text :=
  line.lead ++ (line.marked ++ line.gap)

/-- The line is what stands before its end, then the end. -/
theorem text_eq (place : EntryPlace) (line : EntryLine) :
    line.text place = line.body ++ place.terminator := by
  simp only [text, body, marked, List.append_assoc]

/-- A text that begins with no tilde has no mark. -/
theorem splitEntryMark_of_head? {body : Text} (other : body.head? ≠ some '~') :
    splitEntryMark body = (false, body) := by
  fun_cases splitEntryMark body with
  | case1 rest => exact absurd rfl other
  | case2 => rfl

/-- The pieces that a line is read as are such as an entry line has. -/
theorem fits_of_read? {place : EntryPlace} {text : Text} {line : EntryLine}
    (found : read? place text = some line) : line.Fits := by
  simp only [read?] at found
  split at found
  · cases found
    have whole := markText_append_splitEntryMark (Text.trimStart text)
    have parts := List.takeWhile_append_dropWhile (p := isEntryChar)
      (l := (splitEntryMark (Text.trimStart text)).2)
    refine ⟨Text.allBlank_leadingBlanks text, List.all_takeWhile, Text.allBlank_leadingBlanks _, ?_⟩
    intro empty
    -- Without mark and entry, the rest begins where the leading blanks end.
    obtain ⟨unmarked, noEntry⟩ := List.append_eq_nil_iff.mp empty
    simp only at unmarked noEntry
    rw [unmarked, List.nil_append] at whole
    rw [noEntry, List.nil_append, whole] at parts
    simp only [whole, parts, Text.leadingBlanks_trimStart]
  · cases found

namespace Fits

variable {line : EntryLine} (fits : line.Fits)

include fits

/-- There is no blank in an entry with its mark. -/
theorem unbroken : ∀ c ∈ line.marked, isBlank c = false := by
  intro c member
  rcases List.mem_append.mp member with mark | inside
  · cases disabled : line.disabled with
    | false => simp [markText, disabled] at mark
    | true =>
      obtain rfl : c = '~' := by simpa [markText, disabled] using mark
      decide
  · exact isBlank_of_isEntryChar (List.all_eq_true.mp fits.entryChars c inside)

/-- Behind the leading blanks stands something else, or nothing. -/
theorem trimStart_behind (place : EntryPlace) :
    Text.trimStart (line.lead ++ (line.marked ++ (line.gap ++ place.terminator))) =
      line.marked ++ (line.gap ++ place.terminator) := by
  by_cases empty : line.marked = []
  · rw [empty, fits.noGap empty, List.nil_append, List.nil_append, Text.trimStart_append fits.lead,
      place.trimStart_terminator]
  · exact (Text.trimStart_unbroken fits.lead empty fits.unbroken _).1

/-- What follows an entry is no part of it. -/
theorem stops (place : EntryPlace) :
    ∀ c, (line.gap ++ place.terminator).head? = some c → isEntryChar c = false := by
  apply Text.stops_append_of_blanks (fun c => isBlank_of_isEntryChar (c := c)) fits.gap
  intro c first
  rw [EntryPlace.head?_terminator first]
  decide

/-- The mark is the first character, if there is one. -/
theorem splitEntryMark_marked (place : EntryPlace) :
    splitEntryMark (line.marked ++ (line.gap ++ place.terminator)) =
      (line.disabled, line.entry ++ (line.gap ++ place.terminator)) := by
  cases disabled : line.disabled with
  | true => simp [marked, markText, disabled, splitEntryMark]
  | false =>
    simp only [marked, markText, disabled, Bool.false_eq_true, if_false, List.nil_append]
    apply splitEntryMark_of_head?
    intro first
    cases entry : line.entry with
    | nil =>
      have noGap : line.gap = [] := fits.noGap (by simp [marked, markText, disabled, entry])
      rw [entry, noGap] at first
      exact absurd (EntryPlace.head?_terminator first) (by decide)
    | cons c rest =>
      have kind := List.all_eq_true.mp fits.entryChars c (by simp [entry])
      rw [entry] at first
      exact ne_tilde_of_isEntryChar kind (Option.some.inj first)

/-- A line is read as the pieces that it is made of. -/
theorem read?_text (place : EntryPlace) : read? place (line.text place) = some line := by
  have parts : line.text place =
      line.lead ++ (line.marked ++ (line.gap ++ place.terminator)) := by
    simp only [text_eq, body, List.append_assoc]
  have rest : Text.trimStart (line.gap ++ place.terminator) = place.terminator := by
    rw [Text.trimStart_append fits.gap, place.trimStart_terminator]
  have lead := Text.leadingBlanks_of_trimStart (fits.trimStart_behind place)
  have entry := Text.takeWhile_run fits.entryChars (fits.stops place)
  have afterEntry := Text.dropWhile_run fits.entryChars (fits.stops place)
  have gap := Text.leadingBlanks_of_trimStart rest
  rw [parts, read?]
  simp only [fits.trimStart_behind place, fits.splitEntryMark_marked place, entry, afterEntry, rest,
    lead, gap, if_true]

/-- What stands before the end is trimmed to the entry with its mark. -/
theorem trim_body : Text.trim line.body = line.marked := by
  by_cases empty : line.marked = []
  · rw [body, empty, fits.noGap empty, List.append_nil, List.append_nil, Text.trim_blank fits.lead]
  · exact Text.trim_unbroken fits.lead fits.gap empty fits.unbroken

/-- The blanks before it are the leading ones. -/
theorem leadingBlanks_body : Text.leadingBlanks line.body = line.lead := by
  have behind := fits.trimStart_behind .last
  rw [EntryPlace.terminator, List.append_nil] at behind
  exact Text.leadingBlanks_of_trimStart behind

end Fits

end EntryLine

/-! ## The end of the line -/

/-- Whether a line is parted into what ends it and a body that, blanks around it
    left aside, is an entry with its mark. A blank line has no entry. -/
structure PartsEntry (place : EntryPlace) (line body : Text) (disabled : Bool) (entry : Text) :
    Prop where
  ends : line = body ++ place.terminator
  filled : Text.allBlank line = false
  trimmed : Text.trim body = markText disabled ++ entry
  entryChars : ∀ c ∈ entry, isWord c = true ∨ c = '-' ∨ c = '.'

namespace Entry

/-- The entry that a body holds behind its blanks and its mark. -/
def ofParts (body : Text) (disabled : Bool) (entry : Text) (index : Nat) : Entry :=
  ⟨disabled, entry, Range.ofLength index
    (Text.size (Text.leadingBlanks body) + if disabled then 1 else 0) (Text.size entry)⟩

end Entry

/-- A line that is parted at its end is made of the pieces of an entry line. -/
theorem PartsEntry.exists_fits {place : EntryPlace} {line body : Text} {disabled : Bool}
    {entry : Text} (parts : PartsEntry place line body disabled entry) :
    ∃ pieces : EntryLine, pieces.Fits ∧ pieces.body = body ∧ pieces.disabled = disabled ∧
      pieces.entry = entry := by
  obtain ⟨gap, made, blank⟩ := Text.leadingBlanks_append_trim_append_blanks body
  rw [parts.trimmed] at made
  refine ⟨⟨Text.leadingBlanks body, disabled, entry, gap⟩, ⟨?_, ?_, blank, ?_⟩, made.symm, rfl, rfl⟩
  · exact Text.allBlank_leadingBlanks body
  · rw [List.all_eq_true]
    intro c member
    exact (isEntryChar_iff c).mpr (parts.entryChars c member)
  · intro empty
    rw [show markText disabled ++ entry = [] from empty, List.nil_append] at made
    have allBlank : Text.allBlank body = true := by
      rw [made, Text.allBlank, List.all_append, Bool.and_eq_true]
      exact ⟨Text.allBlank_leadingBlanks body, blank⟩
    rw [Text.leadingBlanks_blank allBlank] at made
    exact List.self_eq_append_right.mp made

namespace Entry

/-- An entry is read as the pieces of its line, unless the line is blank. -/
theorem ofLine?_text {pieces : EntryLine} (fits : pieces.Fits) (place : EntryPlace)
    (filled : Text.allBlank (pieces.text place) = false) (index : Nat) :
    ofLine? place (pieces.text place) index =
      some (ofParts pieces.body pieces.disabled pieces.entry index) := by
  rw [ofLine?, filled, if_neg Bool.false_ne_true, fits.read?_text, Option.map_some]
  simp only [ofParts, fits.leadingBlanks_body, EntryLine.entrySpan, EntryLine.markSpan,
    Span.ofLength, size_markText]

/-- A line holds an entry exactly if it is parted at its end, and the entry is
    that of the body. -/
theorem ofLine?_eq_some_iff (place : EntryPlace) (line : Text) (index : Nat) (found : Entry) :
    ofLine? place line index = some found ↔
      ∃ body disabled entry, PartsEntry place line body disabled entry ∧
        found = ofParts body disabled entry index := by
  constructor
  · intro held
    have filled : Text.allBlank line = false := by
      rw [ofLine?] at held
      split at held
      · cases held
      · next filled => exact Bool.eq_false_iff.mpr filled
    have mapped := held
    rw [ofLine?, filled, if_neg Bool.false_ne_true] at mapped
    obtain ⟨pieces, read, _⟩ := Option.map_eq_some_iff.mp mapped
    have fits := EntryLine.fits_of_read? read
    obtain rfl := EntryLine.text_of_read? read
    rw [ofLine?_text fits place filled] at held
    refine ⟨pieces.body, pieces.disabled, pieces.entry,
      ⟨pieces.text_eq place, filled, fits.trim_body, ?_⟩, (Option.some.inj held).symm⟩
    intro c member
    exact (isEntryChar_iff c).mp (List.all_eq_true.mp fits.entryChars c member)
  · rintro ⟨body, disabled, entry, parts, rfl⟩
    obtain ⟨pieces, fits, rfl, rfl, rfl⟩ := parts.exists_fits
    have filled := parts.filled
    rw [parts.ends, ← pieces.text_eq] at filled ⊢
    exact ofLine?_text fits place filled index

end Entry

end BlockMarkup
