import BlockMarkup.Range
import BlockMarkup.Span
import BlockMarkup.Text.Blank

/-!
# Field lines

A field of a dictionary is a line with a key, a colon and a value. The key has
neither blanks nor colons; blanks may stand before and after it. The value is
the rest of the line, which must not go on after a line feed.

A tilde in front of the key disables the field. A key needs at least one
character, so a tilde that stands alone is the key itself, and of two tildes
only the first is the mark.
-/

namespace BlockMarkup

/-- Whether a character may stand in the key of a field. -/
def isKeyChar (c : Char) : Bool :=
  !(isBlank c || c == ':')

/-- Takes the mark that disables a field off a key, if another character
    follows it. -/
def splitMark : Text → Bool × Text
  | '~' :: c :: rest => (true, c :: rest)
  | key => (false, key)

/-- The characters of the mark. -/
def markText (disabled : Bool) : Text :=
  if disabled then ['~'] else []

/-- The mark and the key are what they were taken from. -/
theorem markText_append_splitMark (key : Text) :
    markText (splitMark key).1 ++ (splitMark key).2 = key := by
  fun_cases splitMark key <;> simp [markText]

/-- The pieces of a field line, the colon standing between `gap` and `value`. -/
structure FieldLine where
  lead : Text
  disabled : Bool
  key : Text
  gap : Text
  value : Text
deriving DecidableEq

namespace FieldLine

/-- The line that the pieces make up. -/
def text (field : FieldLine) : Text :=
  field.lead ++ markText field.disabled ++ field.key ++ field.gap ++ ':' :: field.value

/-- Takes a field line apart. -/
def read? (line : Text) : Option FieldLine :=
  let body := Text.trimStart line
  let afterKey := body.dropWhile isKeyChar
  match body.takeWhile isKeyChar, Text.trimStart afterKey with
  | [], _ => none
  | marked, ':' :: value =>
    if value.contains '\n' then none
    else
      let (disabled, key) := splitMark marked
      some ⟨Text.leadingBlanks line, disabled, key, Text.leadingBlanks afterKey, value⟩
  | _, _ => none

/-- Where the mark stands in the line, empty if there is none. -/
def markSpan (field : FieldLine) : Span :=
  Span.ofLength (Text.size field.lead) (Text.size (markText field.disabled))

/-- Where the key stands in the line. -/
def keySpan (field : FieldLine) : Span :=
  Span.ofLength (Text.size field.lead + Text.size (markText field.disabled)) (Text.size field.key)

/-- Where the value stands in the line, blanks included. -/
def valueSpan (field : FieldLine) : Span :=
  Span.ofLength (field.keySpan.stop + Text.size field.gap + 1) (Text.size field.value)

/-- The pieces of a field line are the line. -/
theorem text_of_read? {line : Text} {field : FieldLine} (found : read? line = some field) :
    field.text = line := by
  simp only [read?] at found
  split at found
  · cases found
  · next value _ rest _ =>
    split at found
    · cases found
    · cases found
      have mark := markText_append_splitMark (List.takeWhile isKeyChar (Text.trimStart line))
      have tail := Text.leadingBlanks_append_trimStart
        (List.dropWhile isKeyChar (Text.trimStart line))
      rw [rest] at tail
      simp only [text, List.append_assoc]
      rw [tail, ← List.append_assoc (markText _), mark, List.takeWhile_append_dropWhile]
      exact Text.leadingBlanks_append_trimStart line
  · cases found

end FieldLine

/-- A key and its value, with the places where they stand. The value is
    trimmed. -/
structure SimpleField where
  disabled : Bool
  key : Text
  keyRange : Range
  value : Text
  valueRange : Range
deriving DecidableEq

/-- The field that a line holds, the line standing at the index. -/
def SimpleField.ofLine? (content : Text) (index : Nat) : Option SimpleField :=
  (FieldLine.read? content).map fun field =>
    let value := Text.trim field.value
    { disabled := field.disabled
      key := field.key
      keyRange := Range.ofLength index field.keySpan.start (Text.size field.key)
      value := value
      valueRange := Range.ofLength index
        (field.valueSpan.start + Text.size (Text.leadingBlanks field.value)) (Text.size value) }

end BlockMarkup
