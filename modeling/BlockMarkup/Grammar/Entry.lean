import BlockMarkup.Grammar.Field
import BlockMarkup.Text.Word

/-!
# Entry lines

An array block has one entry on each line. An entry is a possibly empty run of
word characters, hyphens and points, and a tilde in front of it disables it.
Every entry but the last is followed by a comma, and the comma ends the line;
after the last entry only blanks may follow.
-/

namespace BlockMarkup

/-- Whether a character may stand in an entry. -/
def isEntryChar (c : Char) : Bool :=
  isWord c || c == '-' || c == '.'

/-- Whether an entry has others after it. -/
inductive EntryPlace where
  | inner
  | last
deriving DecidableEq

/-- What ends an entry line. -/
def EntryPlace.terminator : EntryPlace → Text
  | .inner => [',']
  | .last => []

/-- The pieces of an entry line. -/
structure EntryLine where
  lead : Text
  disabled : Bool
  entry : Text
  gap : Text
deriving DecidableEq

namespace EntryLine

/-- Takes the mark that disables an entry off a text. -/
def splitEntryMark : Text → Bool × Text
  | '~' :: rest => (true, rest)
  | body => (false, body)

/-- The line that the pieces make up. -/
def text (place : EntryPlace) (line : EntryLine) : Text :=
  line.lead ++ markText line.disabled ++ line.entry ++ line.gap ++ place.terminator

/-- Takes an entry line apart. -/
def read? (place : EntryPlace) (line : Text) : Option EntryLine :=
  let (disabled, body) := splitEntryMark (Text.trimStart line)
  let afterEntry := body.dropWhile isEntryChar
  if Text.trimStart afterEntry = place.terminator then
    some ⟨Text.leadingBlanks line, disabled, body.takeWhile isEntryChar,
      Text.leadingBlanks afterEntry⟩
  else
    none

/-- Where the mark stands in the line, empty if there is none. -/
def markSpan (line : EntryLine) : Span :=
  Span.ofLength (Text.size line.lead) (Text.size (markText line.disabled))

/-- Where the entry stands in the line. -/
def entrySpan (line : EntryLine) : Span :=
  Span.ofLength line.markSpan.stop (Text.size line.entry)

/-- The mark and the rest are what they were taken from. -/
theorem markText_append_splitEntryMark (body : Text) :
    markText (splitEntryMark body).1 ++ (splitEntryMark body).2 = body := by
  fun_cases splitEntryMark body <;> simp [markText]

/-- The pieces of an entry line are the line. -/
theorem text_of_read? {place : EntryPlace} {line : Text} {entry : EntryLine}
    (found : read? place line = some entry) : entry.text place = line := by
  simp only [read?] at found
  split at found
  · next rest =>
    cases found
    have mark := markText_append_splitEntryMark (Text.trimStart line)
    have tail := Text.leadingBlanks_append_trimStart
      (List.dropWhile isEntryChar (splitEntryMark (Text.trimStart line)).2)
    rw [rest] at tail
    simp only [text, List.append_assoc]
    rw [tail, List.takeWhile_append_dropWhile, mark]
    exact Text.leadingBlanks_append_trimStart line
  · cases found

end EntryLine

/-- An entry of an array block and the place where it stands. -/
structure Entry where
  disabled : Bool
  entry : Text
  entryRange : Range
deriving DecidableEq

/-- The entry that a line holds, the line standing at the index. A blank line
    holds none. -/
def Entry.ofLine? (place : EntryPlace) (content : Text) (index : Nat) : Option Entry :=
  if Text.allBlank content then none
  else
    (EntryLine.read? place content).map fun line =>
      ⟨line.disabled, line.entry,
        Range.ofLength index line.entrySpan.start (Text.size line.entry)⟩

end BlockMarkup
