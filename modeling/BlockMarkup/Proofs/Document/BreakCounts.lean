import Mathlib.Data.List.Infix
import BlockMarkup.Document
import BlockMarkup.Proofs.Document.Location

/-!
# Counting line breaks in the text itself

How often a break ends a line of a document can be told without splitting the
text. A pair is counted wherever a carriage return and a line feed stand next to
each other, a bare line feed wherever a line feed stands and no pair is counted.
Two pairs never share a character, so nothing depends on where the count begins.

`Text.occurrences` looks at every place of a text, and knows neither lines nor
breaks. The induction is over the steps in which a text is split: a break adds
one to the count of its own kind, and a character that begins no break adds
nothing, not even a carriage return before another one.
-/

namespace BlockMarkup

namespace Text

/-- The number of places of a text at which a piece begins. -/
def occurrences (piece text : Text) : Nat :=
  text.tails.countP piece.isPrefixOf

/-- How often a break stands in a text. A line feed is a break of its own if it
    is not the end of a pair. -/
def breakCount (text : Text) : LineBreak → Nat
  | .crlf => occurrences ['\r', '\n'] text
  | .lf => text.count '\n' - occurrences ['\r', '\n'] text

/-! ## One step of the count -/

/-- A piece occurs at the first character or further on. -/
theorem occurrences_cons (piece : Text) (c : Char) (rest : Text) :
    occurrences piece (c :: rest) =
      occurrences piece rest + if piece.isPrefixOf (c :: rest) then 1 else 0 := by
  rw [occurrences, List.tails_cons, List.countP_cons]
  rfl

/-- No pair begins at a line feed, so a break adds a pair if it is one. -/
theorem pairs_break (lineBreak : LineBreak) (rest : Text) :
    occurrences ['\r', '\n'] (lineBreak.text ++ rest) =
      occurrences ['\r', '\n'] rest + if lineBreak = .crlf then 1 else 0 := by
  cases lineBreak with
  | lf => simp [LineBreak.text, occurrences_cons]
  | crlf => simp [LineBreak.text, occurrences_cons]

/-- No pair begins at a character that begins no break. -/
theorem pairs_ordinary {c : Char} {rest : Text} (plain : ¬ BeginsBreak c rest) :
    occurrences ['\r', '\n'] (c :: rest) = occurrences ['\r', '\n'] rest := by
  have absent : List.isPrefixOf ['\r', '\n'] (c :: rest) = false := by
    rw [← Bool.not_eq_true, List.isPrefixOf_iff_prefix]
    -- A pair here would make the character the first of a break.
    rintro ⟨tail, made⟩
    obtain ⟨carriage, made⟩ := List.cons.inj made
    refine plain (Or.inr ⟨carriage.symm, ?_⟩)
    rw [← made]
    rfl
  rw [occurrences_cons, absent]
  rfl

/-- Each break has one line feed. -/
theorem count_feed_break (lineBreak : LineBreak) (rest : Text) :
    (lineBreak.text ++ rest).count '\n' = rest.count '\n' + 1 := by
  cases lineBreak with
  | lf => simp [LineBreak.text]
  | crlf => simp [LineBreak.text]

/-- A character that begins no break is no line feed. -/
theorem count_feed_ordinary {c : Char} {rest : Text} (plain : ¬ BeginsBreak c rest) :
    (c :: rest).count '\n' = rest.count '\n' :=
  List.count_cons_of_ne fun feed => plain (Or.inl feed)

/-- Every pair has a line feed of its own. -/
theorem pairs_le_count_feed (text : Text) :
    occurrences ['\r', '\n'] text ≤ text.count '\n' := by
  induction text using byBreaks with
  | nil => decide
  | atBreak lineBreak rest hypothesis =>
    rw [pairs_break, count_feed_break]
    split <;> omega
  | ordinary c rest plain hypothesis =>
    rwa [pairs_ordinary plain, count_feed_ordinary plain]

/-- Every line feed ends a line, with a carriage return or alone. -/
theorem breakCount_add (text : Text) :
    text.breakCount .crlf + text.breakCount .lf = text.count '\n' :=
  Nat.add_sub_of_le (pairs_le_count_feed text)

/-- A break adds one to the count of its kind. -/
theorem breakCount_break (lineBreak : LineBreak) (rest : Text) (kind : LineBreak) :
    breakCount (lineBreak.text ++ rest) kind =
      breakCount rest kind + if lineBreak = kind then 1 else 0 := by
  have enough := pairs_le_count_feed rest
  cases kind with
  | crlf => exact pairs_break lineBreak rest
  | lf =>
    rw [breakCount, breakCount, pairs_break, count_feed_break]
    cases lineBreak with
    | lf =>
      simp only [reduceCtorEq, if_false, if_true]
      omega
    | crlf =>
      simp only [reduceCtorEq, if_false, if_true]
      omega

/-- A character that begins no break adds to neither count. -/
theorem breakCount_ordinary {c : Char} {rest : Text} (plain : ¬ BeginsBreak c rest)
    (kind : LineBreak) : breakCount (c :: rest) kind = breakCount rest kind := by
  cases kind with
  | crlf => exact pairs_ordinary plain
  | lf => rw [breakCount, breakCount, pairs_ordinary plain, count_feed_ordinary plain]

end Text

/-! ## The lines of a text -/

namespace Line

open Text

/-- A character in front of the first line leaves the ends of lines alone. -/
theorem countP_ending_extendFirst (c : Char) (lines : List Line) (kind : LineBreak) :
    (extendFirst c lines).countP (fun line => line.ending == some kind) =
      lines.countP fun line => line.ending == some kind := by
  cases lines with
  | nil => rfl
  | cons line rest => rfl

/-- A character put in front adds no line. -/
theorem length_extendFirst (c : Char) {lines : List Line} (filled : lines ≠ []) :
    (extendFirst c lines).length = lines.length := by
  cases lines with
  | nil => exact absurd rfl filled
  | cons line rest => rfl

/-- As many lines end with a break as there are such breaks in the text. -/
theorem countP_ending_split (text : Text) (kind : LineBreak) :
    (split text).countP (fun line => line.ending == some kind) = text.breakCount kind := by
  induction text using byBreaks with
  | nil => cases kind <;> rfl
  | atBreak lineBreak rest hypothesis =>
    rw [split_break, List.countP_cons, hypothesis, breakCount_break]
    simp
  | ordinary c rest plain hypothesis =>
    rw [split_ordinary plain, countP_ending_extendFirst, hypothesis, breakCount_ordinary plain]

/-- There is one line more than there are line feeds. -/
theorem length_split (text : Text) : (split text).length = text.count '\n' + 1 := by
  induction text using byBreaks with
  | nil => rfl
  | atBreak lineBreak rest hypothesis =>
    rw [split_break, List.length_cons, hypothesis, count_feed_break]
  | ordinary c rest plain hypothesis =>
    rw [split_ordinary plain, length_extendFirst c (split_ne_nil rest), hypothesis,
      count_feed_ordinary plain]

end Line

namespace Document

/-- The number of lines and the break after most of them, told by the text. The
    first equation says that the count of bare line feeds is not cut off at
    zero. -/
theorem mostUsedBreak_by_counts (text : Text) :
    text.breakCount .crlf + text.breakCount .lf = text.count '\n' ∧
    (ofText text).lineCount = text.breakCount .crlf + text.breakCount .lf + 1 ∧
    (ofText text).mostUsedBreak =
      if text.breakCount .crlf + text.breakCount .lf = 0 then none
      else if text.breakCount .lf < text.breakCount .crlf then some .crlf
      else some .lf := by
  have counts (kind : LineBreak) : (ofText text).countBreaks kind = text.breakCount kind :=
    Line.countP_ending_split text kind
  have lines : (ofText text).lineCount = text.breakCount .crlf + text.breakCount .lf + 1 := by
    rw [Text.breakCount_add]
    exact Line.length_split text
  refine ⟨text.breakCount_add, lines, ?_⟩
  have short : (ofText text).lineCount < 2 ↔
      text.breakCount .crlf + text.breakCount .lf = 0 := by omega
  simp only [mostUsedBreak, short, counts]

/-- Of two pairs and two bare line feeds neither has most, and the carriage
    returns that end no line do not count. -/
example :
    (ofText "\r\n\n\r\r\n\r\ra\n\r".toList).mostUsedBreak = some .lf ∧
      (ofText "\n\r\n\r\n".toList).mostUsedBreak = some .crlf := by
  decide

end Document

end BlockMarkup
