import BlockMarkup.Proofs.Document.Slice
import BlockMarkup.Proofs.Position.LineNumbers

/-!
# Whole lines

A whole line has a break, and splitting its text gives the line back: there is
no line feed in the content, and the break does not take a carriage return from
it. Every text is a number of whole lines followed by a last line without a
break, and this way of taking it apart is the split. So a text after whole lines
is split as if it stood alone, and positions in it are moved by the number of
those lines.
-/

namespace BlockMarkup

namespace Line

open Text

/-- Whether a line has a break that its content leaves alone. -/
structure IsWhole (line : Line) : Prop where
  noFeed : '\n' ∉ line.content
  ended : ∃ lineBreak, line.ending = some lineBreak ∧ ¬ SplitsBreak line.content lineBreak.text

/-- The empty list of lines makes up the empty text. -/
@[simp]
theorem joined_nil : joined [] = [] := rfl

/-- The text of the first line comes first. -/
@[simp]
theorem joined_cons (line : Line) (rest : List Line) :
    joined (line :: rest) = line.text ++ joined rest := rfl

/-- Lines side by side make up their texts side by side. -/
@[simp]
theorem joined_append (front back : List Line) :
    joined (front ++ back) = joined front ++ joined back :=
  List.flatMap_append

/-! ## Splitting -/

/-- A character that is no line feed begins no break, unless it is parted from
    one that follows. -/
theorem not_beginsBreak {c : Char} {content rest : Text} (noFeed : '\n' ∉ c :: content)
    (whole : ¬ SplitsBreak (c :: content) rest) : ¬ BeginsBreak c (content ++ rest) := by
  apply not_beginsBreak_append _ whole
  rintro (rfl | ⟨_, feed⟩)
  · exact noFeed List.mem_cons_self
  · exact noFeed (List.mem_cons_of_mem c (List.mem_of_mem_head? feed))

/-- A text without a line feed is one line. -/
theorem split_of_noFeed {content : Text} (noFeed : '\n' ∉ content) :
    split content = [⟨content, none⟩] := by
  induction content with
  | nil => rfl
  | cons c rest hypothesis =>
    have plain := not_beginsBreak noFeed (not_splitsBreak_nil_right _)
    rw [List.append_nil] at plain
    rw [split_ordinary plain, hypothesis fun feed => noFeed (List.mem_cons_of_mem c feed)]
    rfl

/-- A content and a break that leaves it alone are the first line. -/
theorem split_content_break {content : Text} {lineBreak : LineBreak} (noFeed : '\n' ∉ content)
    (whole : ¬ SplitsBreak content lineBreak.text) (rest : Text) :
    split (content ++ (lineBreak.text ++ rest)) = ⟨content, some lineBreak⟩ :: split rest := by
  induction content with
  | nil => exact split_break lineBreak rest
  | cons c content hypothesis =>
    have headed : (lineBreak.text ++ rest).head? = lineBreak.text.head? := by
      cases lineBreak <;> rfl
    have plain : ¬ BeginsBreak c (content ++ (lineBreak.text ++ rest)) := by
      apply not_beginsBreak noFeed
      rwa [SplitsBreak, headed]
    have restWhole : ¬ SplitsBreak content lineBreak.text := by
      rwa [splitsBreak_cons] at whole
      apply not_beginsBreak noFeed whole
    rw [List.cons_append, split_ordinary plain,
      hypothesis (fun feed => noFeed (List.mem_cons_of_mem c feed)) restWhole]
    rfl

/-- A line that ends with a break is split off as it is. -/
theorem split_text_append {line : Line} (whole : line.IsWhole) (rest : Text) :
    split (line.text ++ rest) = line :: split rest := by
  obtain ⟨content, ending⟩ := line
  obtain ⟨noFeed, lineBreak, rfl, parted⟩ := whole
  rw [text, breakText, List.append_assoc]
  exact split_content_break noFeed parted rest

/-- A text after whole lines is split as if it stood alone. -/
theorem split_joined_append {front : List Line} (whole : ∀ line ∈ front, line.IsWhole)
    (rest : Text) : split (joined front ++ rest) = front ++ split rest := by
  induction front with
  | nil => rfl
  | cons line others hypothesis =>
    have othersWhole : ∀ other ∈ others, other.IsWhole := fun other member =>
      whole other (List.mem_cons_of_mem line member)
    rw [joined_cons, List.append_assoc, split_text_append (whole line List.mem_cons_self),
      hypothesis othersWhole]
    rfl

/-- A character in front of a whole line leaves it whole, unless the character
    is taken by a break. -/
theorem IsWhole.cons {line : Line} (whole : line.IsWhole) {c : Char} {rest : Text}
    (plain : ¬ BeginsBreak c (line.text ++ rest)) :
    IsWhole { line with content := c :: line.content } := by
  obtain ⟨content, ending⟩ := line
  obtain ⟨noFeed, lineBreak, rfl, parted⟩ := whole
  have noFirstFeed : c ≠ '\n' := fun feed => plain (Or.inl feed)
  refine ⟨?_, lineBreak, rfl, ?_⟩
  · intro member
    rcases List.mem_cons.mp member with first | later
    · exact noFirstFeed first.symm
    · exact noFeed later
  · have plainBreak : ¬ BeginsBreak c (content ++ lineBreak.text) := by
      rintro (feed | ⟨carriage, feed⟩)
      · exact noFirstFeed feed
      · apply plain
        refine Or.inr ⟨carriage, ?_⟩
        rw [text, breakText, List.head?_append, feed]
        rfl
    rwa [splitsBreak_cons plainBreak]

/-- The lines of a text are whole lines and a last one without a break. -/
theorem split_parts (source : Text) :
    ∃ front last, split source = front ++ [⟨last, none⟩] ∧ (∀ line ∈ front, line.IsWhole) ∧
      '\n' ∉ last := by
  induction source using byBreaks with
  | nil => exact ⟨[], [], rfl, by simp, by simp⟩
  | atBreak lineBreak rest hypothesis =>
    obtain ⟨front, last, parts, whole, noFeed⟩ := hypothesis
    refine ⟨⟨[], some lineBreak⟩ :: front, last, by rw [split_break, parts]; rfl, ?_, noFeed⟩
    intro line member
    rcases List.mem_cons.mp member with rfl | later
    · exact ⟨List.not_mem_nil, lineBreak, rfl, not_splitsBreak_nil_left _⟩
    · exact whole line later
  | ordinary c rest plain hypothesis =>
    obtain ⟨front, last, parts, whole, noFeed⟩ := hypothesis
    have restEq : rest = joined (front ++ [⟨last, none⟩]) := by
      rw [← parts, joined_split]
    rw [split_ordinary plain, parts]
    cases front with
    | nil =>
      refine ⟨[], c :: last, rfl, by simp, ?_⟩
      intro member
      rcases List.mem_cons.mp member with first | later
      · exact plain (Or.inl first.symm)
      · exact noFeed later
    | cons line others =>
      refine ⟨{ line with content := c :: line.content } :: others, last, rfl, ?_, noFeed⟩
      intro other member
      rcases List.mem_cons.mp member with rfl | later
      · rw [restEq, List.cons_append, joined_cons] at plain
        exact (whole line List.mem_cons_self).cons plain
      · exact whole other (List.mem_cons_of_mem line later)

/-- The lines of a text make it up, the last having no break. -/
theorem joined_append_last {source last : Text} {front : List Line}
    (parts : split source = front ++ [⟨last, none⟩]) : joined front ++ last = source := by
  have joinedParts := joined_split source
  rw [parts] at joinedParts
  simpa [text, breakText] using joinedParts

/-- A text that is empty or ends with a line feed is made up of whole lines. -/
theorem exists_whole_of_ended {source : Text} (ended : source = [] ∨ source.getLast? = some '\n') :
    ∃ front, (∀ line ∈ front, line.IsWhole) ∧ joined front = source := by
  obtain ⟨front, last, parts, whole, noFeed⟩ := split_parts source
  have sourceEq := joined_append_last parts
  have empty : last = [] := by
    rcases ended with rfl | feed
    · exact (List.append_eq_nil_iff.mp sourceEq).2
    · rw [← sourceEq, List.getLast?_append] at feed
      cases ending : last.getLast? with
      | none => exact List.getLast?_eq_none_iff.mp ending
      | some c =>
        rw [ending] at feed
        cases feed
        exact absurd (List.mem_of_getLast? ending) noFeed
  exact ⟨front, whole, by simpa [empty] using sourceEq⟩

/-! ## Offsets -/

/-- A position in the later lines is as far behind the earlier ones as it is from
    the start of the later ones. -/
theorem offset_append (front back : List Line) (p : Position) :
    offset (front ++ back) (p.mapLines (· + front.length)) =
      size (joined front) + offset back p := by
  induction front with
  | nil => simp [Position.mapLines]
  | cons line rest hypothesis =>
    have next : p.mapLines (· + (line :: rest).length) =
        ⟨(p.mapLines (· + rest.length)).line + 1, p.character⟩ := rfl
    rw [next, List.cons_append, offset_cons_succ]
    change size line.text + offset (rest ++ back) (p.mapLines (· + rest.length)) = _
    rw [hypothesis, joined_cons, size_append, Nat.add_assoc]

/-- Later lines do not matter for a position in the earlier ones. -/
theorem offset_append_left {front : List Line} {p : Position} (inside : p.line < front.length)
    (back : List Line) : offset (front ++ back) p = offset front p := by
  induction front generalizing p with
  | nil => simp at inside
  | cons line rest hypothesis =>
    obtain ⟨index, character⟩ := p
    cases index with
    | zero => simp
    | succ index =>
      have later := hypothesis (p := ⟨index, character⟩) (Nat.lt_of_succ_lt_succ inside)
      simp [later]

/-- The start of a line comes right after the lines before it. -/
theorem offset_lineStart {lines : List Line} {index : Nat} (bound : index ≤ lines.length) :
    offset lines ⟨index, 0⟩ = size (joined (lines.take index)) := by
  have counted : (lines.take index).length = index := List.length_take_of_le bound
  have moved := offset_append (lines.take index) (lines.drop index) ⟨0, 0⟩
  have atStart : offset (lines.drop index) ⟨0, 0⟩ = 0 := by
    cases lines.drop index <;> simp
  rw [List.take_append_drop, atStart, counted] at moved
  simpa using moved

/-- Up to the start of a line the lines from there on do not matter. -/
theorem offset_take {lines : List Line} {index : Nat} (bound : index ≤ lines.length) {p : Position}
    (inside : p ≤ ⟨index, 0⟩) : offset (lines.take index) p = offset lines p := by
  have counted : (lines.take index).length = index := List.length_take_of_le bound
  simp only [Position.le_iff] at inside
  rcases inside with before | ⟨here, column⟩
  · have inFront : p.line < (lines.take index).length := by omega
    have early := offset_append_left inFront (lines.drop index)
    rw [List.take_append_drop] at early
    exact early.symm
  · obtain ⟨line, character⟩ := p
    obtain rfl : line = index := here
    obtain rfl : character = 0 := Nat.le_zero.mp column
    rw [offset_lineStart bound, offset_of_absent (Nat.le_of_eq counted)]

end Line

end BlockMarkup
