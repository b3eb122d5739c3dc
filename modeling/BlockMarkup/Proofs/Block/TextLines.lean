import BlockMarkup.Proofs.Block.Layout
import BlockMarkup.Proofs.Document.LineRanges

/-!
# The lines of a text block

A text block ends at the first line with which no curly bracket is left open,
the one of its header included. Within a line the brackets are only counted, so
the line may close more of them than there are. The content is the lines before
it, with the breaks that they have in the document.

A dictionary counts brackets too, but skips those of its fields. Where no line
up to the end of the text is a field, it ends at the same line, and each line
before that is an item of its own.
-/

namespace BlockMarkup

/-- The text that lines make up, without the break after the last of them. -/
def Line.joinedInside : List Line → Text
  | [] => []
  | [line] => line.content
  | line :: next :: rest => line.text ++ joinedInside (next :: rest)

/-- How many more curly brackets lines open than they close. -/
def TextBlock.balance : List Text → Int
  | [] => 0
  | content :: rest => braceBalance content + balance rest

namespace Document

/-- The number of curly brackets that the lines from the first up to an index
    leave open, the line at the index included and one being open at the first. -/
def depthThrough (document : Document) (firstLine index : Nat) : Int :=
  1 + TextBlock.balance ((document.linesBetween firstLine (index + 1)).map Line.content)

/-- Whether a line of the text that begins at the first leaves no curly bracket
    open. -/
def ClosesText (document : Document) (firstLine index : Nat) : Prop :=
  firstLine ≤ index ∧ index < document.lineCount ∧ document.depthThrough firstLine index ≤ 0

/-- Whether no line before the index could close the text. The closing line is
    the last index of which this is true; all indices are such if there is none. -/
def StaysInText (document : Document) (firstLine index : Nat) : Prop :=
  firstLine ≤ index ∧ ∀ earlier < index, ¬ document.ClosesText firstLine earlier

/-- The lines from the first up to the closing line as plain text, each as an
    item of a dictionary. -/
def plainItems (document : Document) (firstLine closingLine : Nat) : List DictionaryItem :=
  (document.numbered firstLine (closingLine - firstLine)).map fun line =>
    .plainText (PlainText.ofLine line.1 line.2)

end Document

/-- Whether a text and a closing line are what stands in a document from a line
    on. -/
structure TextBlock.Layout (document : Document) (firstLine : Nat) (closed : Closed Text) :
    Prop where
  closes : document.ClosesText firstLine closed.closingLine
  /-- No line before the closing line could close the block. -/
  first : document.StaysInText firstLine closed.closingLine
  content : closed.content = Line.joinedInside (document.linesBetween firstLine closed.closingLine)

/-! ## The content -/

/-- The break of the last line is left out, and no other. -/
theorem Line.joinedInside_append_last (front : List Line) (last : Line) :
    joinedInside (front ++ [last]) = joined front ++ last.content := by
  induction front with
  | nil => rfl
  | cons line rest hypothesis =>
    have step : joinedInside (line :: (rest ++ [last])) =
        line.text ++ joinedInside (rest ++ [last]) := by
      cases rest <;> rfl
    rw [List.cons_append, step, hypothesis, joined_cons, List.append_assoc]

namespace Document

/-- What a content range covers is its lines without the break after the last. -/
theorem textIn_contentRange {document : Document} {firstLine closingLine : Nat} {range : Range}
    (ordered : firstLine ≤ closingLine) (present : closingLine < document.lineCount)
    (covered : document.contentRange firstLine closingLine = .ok range) :
    document.textIn range = Line.joinedInside (document.linesBetween firstLine closingLine) := by
  rw [contentRange_eq, Except.ok.injEq] at covered
  subst covered
  rcases Nat.eq_or_lt_of_le ordered with rfl | before
  · have empty : document.linesBetween firstLine firstLine = [] := by
      rw [linesBetween, List.drop_take_self]
    rw [if_pos (Nat.le_refl _), empty]
    exact textIn_eq_nil (Nat.le_refl _)
  · obtain ⟨last, rfl⟩ : ∃ last, closingLine = last + 1 := ⟨closingLine - 1, by omega⟩
    have inside : last < document.lines.length := Nat.lt_of_succ_lt present
    have here := List.getElem?_eq_getElem inside
    have parts : document.linesBetween firstLine (last + 1) =
        document.linesBetween firstLine last ++ [document.lines[last]] := by
      rw [linesBetween, linesBetween, List.take_succ_eq_append_getElem inside,
        List.drop_append_of_le_length]
      rw [List.length_take_of_le (Nat.le_of_lt inside)]
      omega
    rw [if_neg (Nat.not_le.mpr before), Nat.add_sub_cancel,
      textIn_toLineEnd (Nat.le_of_lt_succ before) here, parts, Line.joinedInside_append_last]

end Document

/-! ## The closing line -/

namespace TextBlock

/-- Whether a line, told by the number of lines before it, leaves no bracket
    open. -/
def Closes (lines : List Text) (depth : Int) (number : Nat) : Prop :=
  number < lines.length ∧ depth + balance (lines.take (number + 1)) ≤ 0

/-- The first line closes the text if its braces bring the depth down to zero. -/
theorem closes_cons_zero (content : Text) (rest : List Text) (depth : Int) :
    Closes (content :: rest) depth 0 ↔ depth + braceBalance content ≤ 0 := by
  simp [Closes, balance]

/-- A later line closes it with the depth that the first line leads to. -/
theorem closes_cons_succ (content : Text) (rest : List Text) (depth : Int) (number : Nat) :
    Closes (content :: rest) depth (number + 1) ↔
      Closes rest (depth + braceBalance content) number := by
  simp [Closes, balance, Int.add_assoc]

/-- Whether every line before one leaves a bracket open. -/
def StaysOpen (lines : List Text) (depth : Int) (number : Nat) : Prop :=
  ∀ earlier < number, ¬ Closes lines depth earlier

/-- Before the first line nothing can close the text. -/
theorem staysOpen_zero (lines : List Text) (depth : Int) : StaysOpen lines depth 0 := by
  intro earlier before
  exact absurd before (Nat.not_lt_zero earlier)

/-- The text stays open if the first line leaves it open and the others do. -/
theorem staysOpen_cons_succ (content : Text) (rest : List Text) (depth : Int) (number : Nat) :
    StaysOpen (content :: rest) depth (number + 1) ↔
      ¬ depth + braceBalance content ≤ 0 ∧
        StaysOpen rest (depth + braceBalance content) number := by
  constructor
  · intro stays
    refine ⟨mt (closes_cons_zero content rest depth).mpr (stays 0 (Nat.zero_lt_succ _)), ?_⟩
    intro earlier before
    rw [← closes_cons_succ]
    exact stays (earlier + 1) (Nat.succ_lt_succ before)
  · rintro ⟨first, stays⟩ (_ | earlier) before
    · exact mt (closes_cons_zero content rest depth).mp first
    · rw [closes_cons_succ]
      exact stays earlier (Nat.lt_of_succ_lt_succ before)

/-- The number of lines before the end is the least with which no bracket is left
    open. -/
theorem linesBeforeEnd?_eq_some_iff (lines : List Text) (depth : Int) (count : Nat) :
    linesBeforeEnd? lines depth = some count ↔
      Closes lines depth count ∧ StaysOpen lines depth count := by
  induction lines generalizing depth count with
  | nil => simp [linesBeforeEnd?, Closes]
  | cons content rest hypothesis =>
    simp only [linesBeforeEnd?]
    cases count with
    | zero =>
      rw [closes_cons_zero]
      by_cases closes : depth + braceBalance content ≤ 0
      · simp [closes, staysOpen_zero]
      · simp [closes]
    | succ before =>
      rw [closes_cons_succ, staysOpen_cons_succ, and_left_comm, ← hypothesis]
      by_cases closes : depth + braceBalance content ≤ 0
      · simp [closes]
      · simp [closes]

/-- There is an end if any line leaves no bracket open. -/
theorem linesBeforeEnd?_eq_none_iff (lines : List Text) (depth : Int) :
    linesBeforeEnd? lines depth = none ↔ ∀ number, ¬ Closes lines depth number := by
  induction lines generalizing depth with
  | nil => simp [linesBeforeEnd?, Closes]
  | cons content rest hypothesis =>
    simp only [linesBeforeEnd?]
    by_cases closes : depth + braceBalance content ≤ 0
    · have first := (closes_cons_zero content rest depth).mpr closes
      rw [if_pos closes]
      constructor
      · intro found
        cases found
      · intro never
        exact absurd first (never 0)
    · have notFirst := mt (closes_cons_zero content rest depth).mp closes
      rw [if_neg closes, Option.map_eq_none_iff, hypothesis]
      constructor
      · rintro never (_ | number)
        · exact notFirst
        · rw [closes_cons_succ]
          exact never number
      · intro never number also
        exact never (number + 1) ((closes_cons_succ content rest depth number).mpr also)

variable {document : Document} {firstLine : Nat}

/-- The lines of a document close the text as their contents do. -/
theorem closesText_add_iff (number : Nat) :
    document.ClosesText firstLine (firstLine + number) ↔
      Closes (document.contentsFrom firstLine) 1 number := by
  have lines : (document.linesBetween firstLine (firstLine + number + 1)).map Line.content =
      (document.contentsFrom firstLine).take (number + 1) := by
    have count : firstLine + number + 1 - firstLine = number + 1 := by omega
    rw [Document.linesBetween, List.drop_take, count, Document.contentsFrom, ← List.map_take]
  rw [Document.ClosesText, Document.depthThrough, lines, Closes, Document.length_contentsFrom]
  constructor
  · rintro ⟨_, present, closes⟩
    exact ⟨by omega, closes⟩
  · rintro ⟨present, closes⟩
    exact ⟨by omega, by omega, closes⟩

/-- Lines before the first content line close nothing, so the lines of a text can
    be counted from there. -/
theorem staysInText_add_iff (number : Nat) :
    document.StaysInText firstLine (firstLine + number) ↔
      StaysOpen (document.contentsFrom firstLine) 1 number := by
  constructor
  · rintro ⟨_, stays⟩ earlier before also
    exact stays (firstLine + earlier) (by omega) ((closesText_add_iff earlier).mpr also)
  · intro stays
    refine ⟨Nat.le_add_right _ _, ?_⟩
    intro index before closes
    obtain ⟨earlier, rfl⟩ := Nat.exists_eq_add_of_le closes.1
    exact stays earlier (by omega) ((closesText_add_iff earlier).mp closes)

/-- The count of lines ends at the first line that closes the text. -/
theorem linesBeforeEnd?_contentsFrom_iff (count : Nat) :
    linesBeforeEnd? (document.contentsFrom firstLine) 1 = some count ↔
      document.ClosesText firstLine (firstLine + count) ∧
        document.StaysInText firstLine (firstLine + count) := by
  rw [linesBeforeEnd?_eq_some_iff, closesText_add_iff, staysInText_add_iff]

/-- There is such a line if the count comes to an end. -/
theorem exists_closesText_iff :
    (∃ index, document.ClosesText firstLine index) ↔
      linesBeforeEnd? (document.contentsFrom firstLine) 1 ≠ none := by
  rw [ne_eq, linesBeforeEnd?_eq_none_iff, Classical.not_forall_not]
  constructor
  · rintro ⟨index, closes⟩
    obtain ⟨number, rfl⟩ := Nat.exists_eq_add_of_le closes.1
    exact ⟨number, (closesText_add_iff number).mp closes⟩
  · rintro ⟨number, closes⟩
    exact ⟨firstLine + number, (closesText_add_iff number).mpr closes⟩

/-- A text is never refused. What it is read as is told by the search for its
    end. -/
theorem read_eq (document : Document) (firstLine : Nat) :
    read document firstLine = .ok
      (match linesBeforeEnd? (document.contentsFrom firstLine) 1 with
      | some count => .ok ⟨Line.joinedInside (document.linesBetween firstLine (firstLine + count)),
          firstLine + count⟩
      | none => .error (.text firstLine)) := by
  unfold read
  cases counted : linesBeforeEnd? (document.contentsFrom firstLine) 1 with
  | none => rfl
  | some count =>
    have bound := linesBeforeEnd?_lt counted
    rw [Document.length_contentsFrom] at bound
    have covered := document.contentRange_eq firstLine (firstLine + count)
    have text := Document.textIn_contentRange (Nat.le_add_right _ _) (by omega) covered
    simp only [covered, ← text]
    rfl

end TextBlock

/-! ## Lines without fields -/

/-- A dictionary reads lines that are no fields as a text does. -/
theorem Dictionary.run_of_noField (firstLine : Nat) {lines : List Text} {index : Nat} {depth : Int}
    (noField : ∀ number content, lines[number]? = some content →
      TextBlock.StaysOpen lines depth number →
        SimpleField.ofLine? content (index + number) = none) :
    run firstLine lines index .idle depth =
      match TextBlock.linesBeforeEnd? lines depth with
      | some count => .ok ⟨((lines.take count).zipIdx index).map fun line =>
          .plainText (PlainText.ofLine line.1 line.2), index + count⟩
      | none => .error (.dictionary firstLine) := by
  induction lines generalizing index depth with
  | nil => rfl
  | cons content rest hypothesis =>
    have plain : SimpleField.ofLine? content index = none :=
      noField 0 content rfl (TextBlock.staysOpen_zero _ _)
    simp only [run, step, plain, TextBlock.linesBeforeEnd?]
    by_cases closes : depth + braceBalance content ≤ 0
    · rw [if_pos closes, if_pos closes]
      rfl
    · have restNoField : ∀ number other, rest[number]? = some other →
          TextBlock.StaysOpen rest (depth + braceBalance content) number →
            SimpleField.ofLine? other (index + 1 + number) = none := by
        intro number other present stays
        have next : index + 1 + number = index + (number + 1) := by omega
        rw [next]
        exact noField (number + 1) other present
          ((TextBlock.staysOpen_cons_succ content rest depth number).mpr ⟨closes, stays⟩)
      rw [if_neg closes, if_neg closes]
      simp only [hypothesis restNoField]
      cases TextBlock.linesBeforeEnd? rest (depth + braceBalance content) with
      | none => rfl
      | some count =>
        have next : index + 1 + count = index + (count + 1) := by omega
        simp [Except.map, Closed.map, next]

namespace TextBlock

/-- Where no line of a text is a field, a dictionary has the same end. -/
theorem dictionary_eq_plainItems {document : Document} {firstLine : Nat}
    (noField : ∀ index, document.StaysInText firstLine index → document.fieldAt? index = none) :
    Dictionary.read (document.contentsFrom firstLine) firstLine =
      match linesBeforeEnd? (document.contentsFrom firstLine) 1 with
      | some count =>
        .ok ⟨document.plainItems firstLine (firstLine + count), firstLine + count⟩
      | none => .error (.dictionary firstLine) := by
  have plain : ∀ number content, (document.contentsFrom firstLine)[number]? = some content →
      StaysOpen (document.contentsFrom firstLine) 1 number →
        SimpleField.ofLine? content (firstLine + number) = none := by
    intro number content present stays
    rw [Document.contentsFrom_getElem?] at present
    rw [← Document.fieldAt?_of_contentAt? present]
    exact noField (firstLine + number) ((staysInText_add_iff number).mpr stays)
  rw [Dictionary.read, Dictionary.run_of_noField firstLine plain]
  cases linesBeforeEnd? (document.contentsFrom firstLine) 1 with
  | none => rfl
  | some count => simp only [Document.plainItems, Document.numbered, Nat.add_sub_cancel_left]

/-- A text is read as what is laid out on its lines, and it is read if any line
    leaves no bracket open. Where no line of it is a field, a dictionary is read
    exactly if the text is, with the same end and a plain text for each line. -/
theorem read_by_depth (document : Document) (firstLine : Nat) :
    ∃ result, read document firstLine = .ok result ∧
      ((∃ closed, result = .ok closed) ↔ ∃ index, document.ClosesText firstLine index) ∧
      (∀ closed, result = .ok closed ↔ Layout document firstLine closed) ∧
      ((∀ index, document.StaysInText firstLine index → document.fieldAt? index = none) →
        ∀ closed, Dictionary.read (document.contentsFrom firstLine) firstLine = .ok closed ↔
          ∃ text, result = .ok text ∧
            closed = ⟨document.plainItems firstLine text.closingLine, text.closingLine⟩) := by
  refine ⟨_, read_eq document firstLine, ?_, ?_, ?_⟩
  · rw [exists_closesText_iff]
    cases linesBeforeEnd? (document.contentsFrom firstLine) 1 with
    | none => simp
    | some count => simp
  · intro closed
    constructor
    · intro ended
      split at ended
      · next count counted =>
        cases ended
        obtain ⟨closes, stays⟩ := (linesBeforeEnd?_contentsFrom_iff count).mp counted
        exact ⟨closes, stays, rfl⟩
      · cases ended
    · obtain ⟨content, closingLine⟩ := closed
      rintro ⟨closes, stays, made⟩
      simp only at closes stays made
      obtain ⟨count, rfl⟩ := Nat.exists_eq_add_of_le closes.1
      rw [(linesBeforeEnd?_contentsFrom_iff count).mpr ⟨closes, stays⟩, made]
  · intro noField closed
    rw [dictionary_eq_plainItems noField]
    cases linesBeforeEnd? (document.contentsFrom firstLine) 1 with
    | none => simp
    | some count => simp [eq_comm]

/-- Two brackets are open before the fourth line, which closes three. The field
    behind it is outside. -/
def fallingDepth : Document :=
  Document.ofText "docs \x7b\n \x7b a\r\n\n\x7d\x7d\x7d b\nc: 1".toList

/-- Three closing braces on the fourth line bring the depth below zero, which closes the
    text and the dictionary alike. -/
theorem read_by_depth_fallingDepth :
    (∀ index, fallingDepth.StaysInText 1 index → fallingDepth.fieldAt? index = none) ∧
      fallingDepth.depthThrough 1 3 = -1 ∧
      read fallingDepth 1 = .ok (.ok ⟨" \x7b a\r\n".toList, 3⟩) ∧
      Dictionary.read (fallingDepth.contentsFrom 1) 1 =
        .ok ⟨[.plainText (PlainText.ofLine " \x7b a".toList 1),
          .plainText (PlainText.ofLine [] 2)], 3⟩ := by
  have closes : fallingDepth.ClosesText 1 3 := ⟨by decide, by decide, by decide⟩
  have stays : fallingDepth.StaysInText 1 3 := by
    refine ⟨by decide, ?_⟩
    rintro index before ⟨after, _, shallow⟩
    obtain rfl | rfl : index = 1 ∨ index = 2 := by omega
    · exact absurd shallow (by decide)
    · exact absurd shallow (by decide)
  have noField : ∀ index, fallingDepth.StaysInText 1 index →
      fallingDepth.fieldAt? index = none := by
    rintro index ⟨after, unclosed⟩
    have inside : index ≤ 3 := Nat.le_of_not_lt fun behind => unclosed 3 behind closes
    obtain rfl | rfl | rfl : index = 1 ∨ index = 2 ∨ index = 3 := by omega
    · decide
    · decide
    · decide
  obtain ⟨result, returned, _, layout, agrees⟩ := read_by_depth fallingDepth 1
  have ended := (layout ⟨" \x7b a\r\n".toList, 3⟩).mpr ⟨closes, stays, by decide⟩
  refine ⟨noField, by decide, by rw [returned, ended], ?_⟩
  exact (agrees noField _).mpr ⟨_, ended, by decide⟩

end TextBlock

end BlockMarkup
