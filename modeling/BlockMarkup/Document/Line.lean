import BlockMarkup.Text.Measure

/-!
# Lines and line breaks

A text is split at its line feeds. A carriage return right before a line feed
belongs to the break; any other carriage return is an ordinary character of the
line. The last line has no break, so the empty text has one line, and a text
that ends with a break has an empty line after it.

The split loses nothing: `Line.joined_split` puts the lines back together.
-/

namespace BlockMarkup

/-- What ends a line. -/
inductive LineBreak where
  | lf
  | crlf
deriving DecidableEq

/-- The characters of a line break. -/
def LineBreak.text : LineBreak → Text
  | .lf => ['\n']
  | .crlf => ['\r', '\n']

/-- The content of a line, and the break after it if there is one. -/
structure Line where
  content : Text
  ending : Option LineBreak
deriving DecidableEq

namespace Line

/-- The characters of the break after a line. -/
def breakText (line : Line) : Text :=
  match line.ending with
  | none => []
  | some lineBreak => lineBreak.text

/-- The content of a line with its break. -/
def text (line : Line) : Text :=
  line.content ++ line.breakText

/-- The number of bytes in the content of a line. -/
def length (line : Line) : Nat :=
  Text.size line.content

/-- The text that a list of lines makes up. -/
def joined (lines : List Line) : Text :=
  lines.flatMap text

/-- Puts a character in front of the first line. -/
def extendFirst (c : Char) : List Line → List Line
  | [] => [⟨[c], none⟩]
  | line :: rest => { line with content := c :: line.content } :: rest

/-- The lines of a text. -/
def split : Text → List Line
  | [] => [⟨[], none⟩]
  | '\n' :: rest => ⟨[], some .lf⟩ :: split rest
  | '\r' :: '\n' :: rest => ⟨[], some .crlf⟩ :: split rest
  | c :: rest => extendFirst c (split rest)

/-- The byte offsets at which the lines begin, the first one at `start`. -/
def starts : Nat → List Line → List Nat
  | _, [] => []
  | start, line :: rest => start :: starts (start + Text.size line.text) rest

/-- A character put in front of the first line stands in front of the text. -/
@[simp]
theorem joined_extendFirst (c : Char) (lines : List Line) :
    joined (extendFirst c lines) = c :: joined lines := by
  cases lines <;> simp [extendFirst, joined, text, breakText]

/-- Splitting a text and joining its lines gives the text back. -/
@[simp]
theorem joined_split (source : Text) : joined (split source) = source := by
  fun_induction split source with
  | case1 => rfl
  | case2 rest hypothesis =>
    simpa [joined, text, breakText, LineBreak.text] using hypothesis
  | case3 rest hypothesis =>
    simpa [joined, text, breakText, LineBreak.text] using hypothesis
  | case4 c rest _ _ hypothesis => simp [hypothesis]

/-- Every line has a start. -/
@[simp]
theorem length_starts (start : Nat) (lines : List Line) :
    (starts start lines).length = lines.length := by
  induction lines generalizing start with
  | nil => rfl
  | cons line rest hypothesis => simp [starts, hypothesis]

/-- There is at least one line. -/
theorem split_ne_nil (source : Text) : split source ≠ [] := by
  fun_cases split source with
  | case1 => simp
  | case2 => simp
  | case3 => simp
  | case4 c rest => cases split rest <;> simp [extendFirst]

end Line

end BlockMarkup
