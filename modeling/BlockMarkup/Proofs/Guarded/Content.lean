import BlockMarkup.Proofs.Document.SharedLines
import BlockMarkup.Proofs.Guarded.Depth
import BlockMarkup.Proofs.Guarded.Grammar
import BlockMarkup.Proofs.Guarded.LineTable

/-!
# The content of a block in guarded steps

The three readers of contents go through the lines of a table. Each is a loop
with the index of the next line in its state, and a round asks the table for that
line. What a loop still has to answer is what the reader of the library makes of
the remaining lines; every round keeps that answer.
-/

namespace BlockMarkup

namespace Guarded

open Text

/-! ## Dictionaries -/

/-- Adds a line between the brackets of an array field. -/
def addLine (field : ArrayField) (content : Text) (index : Nat) : Guarded ArrayField :=
  if allBlank content then do
    return { field with plainText := field.plainText ++ [← plainText content index] }
  else do
    let element := ArrayField.elementText content
    let start ← sub (size content) (size (trimStart content))
    let range ← onLine index ⟨start, ← add start (size element)⟩
    return { field with values := field.values ++ [⟨element, range⟩] }

/-- A line between the brackets of an array field. -/
def collect (field : ArrayField) (content : Text) (index : Nat) (depth : Int) :
    Guarded Dictionary.Step :=
  if isLone Bracket.square.closing content then return .goesOn [.arrayField field] .idle depth
  else return .goesOn [] (.collecting (← addLine field content index)) depth

/-- The effect of a line of a dictionary. -/
def step (state : Dictionary.State) (depth : Int) (content : Text) (index : Nat) :
    Guarded Dictionary.Step :=
  match state with
  | .collecting field => collect field content index depth
  | .held held => do
    match ← fieldOn? content index with
    | none => collect (ArrayField.ofKey held) content index depth
    | some field =>
      let (items, next) := Dictionary.place field
      return .goesOn (.field held :: items) next depth
  | .idle => do
    match ← fieldOn? content index with
    | some field =>
      let (items, next) := Dictionary.place field
      return .goesOn items next depth
    | none =>
      let deeper ← addSigned depth (← braceBalance content)
      if deeper ≤ 0 then return .closes
      else return .goesOn [.plainText (← plainText content index)] .idle deeper

/-- How far the lines of a dictionary have been read. -/
structure DictionaryRead where
  items : List DictionaryItem
  state : Dictionary.State
  depth : Int
  index : Nat

/-- Reads the next line of a dictionary. -/
def dictionaryLine (table : LineTable) (firstLine : Nat) (done : DictionaryRead) :
    Guarded (Next DictionaryRead (Except Unclosed (Closed (List DictionaryItem)))) :=
  if done.index < table.lineCount then do
    let content ← table.line done.index
    match ← step done.state done.depth content done.index with
    | .closes => return .ends (.ok ⟨done.items, done.index⟩)
    | .goesOn items next deeper =>
      return .goesOn ⟨done.items ++ items, next, deeper, ← add done.index 1⟩
  else
    return .ends (.error (done.state.unclosed firstLine))

/-- Reads a dictionary from its first content line on. -/
def readDictionary (table : LineTable) (firstLine : Nat) :
    Guarded (Except Unclosed (Closed (List DictionaryItem))) :=
  loop (dictionaryLine table firstLine) (table.lineCount + 1) ⟨[], .idle, 1, firstLine⟩

/-- An array field grows by a line without a violation. -/
theorem addLine_eq {content : Text} (held : size content < wordLimit) (field : ArrayField)
    (index : Nat) : addLine field content index = .ok (field.addLine content index) := by
  rw [addLine, ArrayField.addLine]
  split
  · rw [plainText_eq]
    rfl
  · obtain ⟨leading, shorter⟩ := size_trimStart content
    obtain ⟨tail, parted⟩ := ArrayField.elementText_parts content
    have sizes := congrArg size parted
    rw [size_append, size_append] at sizes
    have sum : size (leadingBlanks content) + size (ArrayField.elementText content) < wordLimit := by
      omega
    rw [sub_eq shorter, ok_bind, leading, add_eq sum, ok_bind, ← Span.ofLength, onLine_eq rfl]
    rfl

/-- It collects a line, or ends with it, without a violation. -/
theorem collect_eq {content : Text} (held : size content < wordLimit) (field : ArrayField)
    (index : Nat) (depth : Int) :
    collect field content index depth = .ok (Dictionary.collect field content index depth) := by
  rw [collect, Dictionary.collect]
  split
  · rfl
  · rw [addLine_eq held]
    rfl

/-- A line has its effect on a dictionary without a violation, if the depth does not
    grow too large. -/
theorem step_eq {depth : Int} {content : Text} (positive : 0 < depth)
    (held : depth + size content < signedLimit) (state : Dictionary.State) (index : Nat) :
    step state depth content index = .ok (Dictionary.step state depth content index) := by
  have limits := signedLimit_le_wordLimit
  have word : size content < wordLimit := by omega
  have read := fieldOn?_eq word index
  cases state with
  | collecting field => exact collect_eq word field index depth
  | held pending =>
    cases found : SimpleField.ofLine? content index with
    | none =>
      simp only [step, Dictionary.step, read, found, ok_bind]
      exact collect_eq word (ArrayField.ofKey pending) index depth
    | some field =>
      simp only [step, Dictionary.step, read, found, ok_bind]
      rfl
  | idle =>
    cases found : SimpleField.ofLine? content index with
    | some field =>
      simp only [step, Dictionary.step, read, found, ok_bind]
      rfl
    | none =>
      have bounds := braceBalance_le_size content
      have short := length_le_size content
      have balance : braceBalance content = .ok _ := braceBalance_eq (by omega)
      have sum : addSigned depth (BlockMarkup.braceBalance content) =
          .ok (depth + BlockMarkup.braceBalance content) :=
        addSigned_eq (by omega) (by omega)
      simp only [step, Dictionary.step, read, found, balance, sum, plainText_eq, ok_bind]
      split
      · rfl
      · rfl

section Readers

variable {document : Document} {firstLine : Nat} (held : document.size < signedLimit)

/-- What is still to be answered: the items so far and what the remaining lines
    hold. -/
def DictionaryRead.answer (document : Document) (firstLine : Nat) (done : DictionaryRead) :
    Except Unclosed (Closed (List DictionaryItem)) :=
  (Dictionary.run firstLine (document.contentsFrom done.index) done.index done.state
    done.depth).map (Closed.map (done.items ++ ·))

include held

/-- The line after one of the document can be counted. -/
theorem following_eq {index : Nat} (present : index < document.lineCount) :
    add index 1 = .ok (index + 1) := by
  have count := document.lineCount_le
  have limits : signedLimit < wordLimit := by decide
  exact add_eq (by omega)

/-- A line closes the dictionary, or it leaves the answer to the lines behind
    it. -/
theorem dictionaryLine_round {done : DictionaryRead}
    (opened : document.OpenAt done.index done.depth) :
    dictionaryLine (.ofDocument document) firstLine done =
        .ok (.ends (done.answer document firstLine)) ∨
      ∃ next, dictionaryLine (.ofDocument document) firstLine done = .ok (.goesOn next) ∧
        document.lineCount - next.index < document.lineCount - done.index ∧
        document.OpenAt next.index next.depth ∧
        next.answer document firstLine = done.answer document firstLine := by
  obtain ⟨items, state, depth, index⟩ := done
  simp only [dictionaryLine, DictionaryRead.answer, LineTable.lineCount_ofDocument] at opened ⊢
  by_cases inside : index < document.lineCount
  · have present := List.getElem?_eq_getElem (l := document.lines) inside
    have line := LineTable.line_eq present
    have stepped := step_eq opened.positive (opened.add_size_lt present held) state index
    simp only [if_pos inside, line, stepped, ok_bind, following_eq held inside,
      Document.contentsFrom_of_present present, Dictionary.run]
    rcases Dictionary.step_positive opened.positive state (document.lines[index]).content index
      with ⟨closes, _⟩ | ⟨added, next, deeper, goesOn, positive⟩
    · rw [closes]
      left
      simp [Except.map, Closed.map]
    · rw [goesOn]
      right
      refine ⟨_, rfl, by simp only; omega,
        opened.next present positive (Dictionary.depth_le_of_step goesOn), ?_⟩
      simp only
      cases Dictionary.run firstLine (document.contentsFrom (index + 1)) (index + 1) next deeper with
      | error cause => rfl
      | ok closed => simp [Except.map, Closed.map]
  · rw [if_neg inside, Document.contentsFrom_of_absent (Nat.le_of_not_lt inside)]
    exact Or.inl rfl

/-- A dictionary is read without a violation from any line but the first. -/
theorem readDictionary_eq (after : 0 < firstLine) :
    readDictionary (.ofDocument document) firstLine =
      .ok (Dictionary.read (document.contentsFrom firstLine) firstLine) := by
  have looped : readDictionary (.ofDocument document) firstLine =
      .ok (DictionaryRead.answer document firstLine ⟨[], .idle, 1, firstLine⟩) := by
    apply loop_eq (fun done => document.OpenAt done.index done.depth)
      (fun done => document.lineCount - done.index) (DictionaryRead.answer document firstLine)
    · intro done opened
      exact dictionaryLine_round held opened
    · rw [LineTable.lineCount_ofDocument]
      exact Nat.lt_succ_of_le (Nat.sub_le _ _)
    · exact Document.OpenAt.first document after
  rw [looped, DictionaryRead.answer, Dictionary.read]
  cases Dictionary.run firstLine (document.contentsFrom firstLine) firstLine .idle 1 with
  | error cause => rfl
  | ok closed => rfl

end Readers

/-! ## Texts -/

/-- The range of the lines from the first content line up to the closing line. -/
def contentRange (table : LineTable) (firstLine closingLine : Nat) : Guarded Range :=
  if closingLine ≤ firstLine then return Range.emptyAt ⟨closingLine, 0⟩
  else do
    let last ← sub closingLine 1
    between ⟨firstLine, 0⟩ ⟨last, ← table.lineLength last⟩

/-- How far the lines of a text have been looked at. -/
structure TextRead where
  depth : Int
  index : Nat

/-- Looks for the closing line of a text on the next line. -/
def textLine (table : LineTable) (done : TextRead) : Guarded (Next TextRead (Option Nat)) :=
  if done.index < table.lineCount then do
    let content ← table.line done.index
    let deeper ← addSigned done.depth (← braceBalance content)
    if deeper ≤ 0 then return .ends (some done.index)
    else return .goesOn ⟨deeper, ← add done.index 1⟩
  else
    return .ends none

/-- Reads a text from its first content line on. -/
def readText (table : LineTable) (firstLine : Nat) : Guarded (Except Unclosed (Closed Text)) := do
  match ← loop (textLine table) (table.lineCount + 1) ⟨1, firstLine⟩ with
  | none => return .error (.text firstLine)
  | some closingLine =>
    let range ← contentRange table firstLine closingLine
    return .ok ⟨← table.textIn range, closingLine⟩

/-- The range of a content is made without a violation, if its closing line is there. -/
theorem contentRange_eq {document : Document} {closingLine : Nat}
    (present : closingLine < document.lineCount) (firstLine : Nat) :
    contentRange (.ofDocument document) firstLine closingLine =
      ofChecked (document.contentRange firstLine closingLine) := by
  rw [contentRange, Document.contentRange]
  split
  · rfl
  · rw [sub_eq (by omega), ok_bind, LineTable.lineLength_eq (by omega), ok_bind]
    rfl

/-- The line that closes a text, if there is one. -/
def TextRead.answer (document : Document) (done : TextRead) : Option Nat :=
  (TextBlock.linesBeforeEnd? (document.contentsFrom done.index) done.depth).map (done.index + ·)

section Readers

variable {document : Document} {firstLine : Nat} (held : document.size < signedLimit)

include held

/-- A line closes the text, or it leaves the answer to the lines behind it. -/
theorem textLine_round {done : TextRead} (opened : document.OpenAt done.index done.depth) :
    textLine (.ofDocument document) done = .ok (.ends (done.answer document)) ∨
      ∃ next, textLine (.ofDocument document) done = .ok (.goesOn next) ∧
        document.lineCount - next.index < document.lineCount - done.index ∧
        document.OpenAt next.index next.depth ∧ next.answer document = done.answer document := by
  obtain ⟨depth, index⟩ := done
  simp only [textLine, TextRead.answer, LineTable.lineCount_ofDocument] at opened ⊢
  by_cases inside : index < document.lineCount
  · have present := List.getElem?_eq_getElem (l := document.lines) inside
    have line := LineTable.line_eq present
    have sum := opened.add_size_lt present held
    have positive := opened.positive
    generalize (document.lines[index]) = found at present line sum
    have bounds := braceBalance_le_size found.content
    have short := length_le_size found.content
    have balance : braceBalance found.content = .ok _ := braceBalance_eq (by omega)
    have deeper : addSigned depth (BlockMarkup.braceBalance found.content) =
        .ok (depth + BlockMarkup.braceBalance found.content) := addSigned_eq (by omega) (by omega)
    simp only [if_pos inside, line, balance, deeper, ok_bind, following_eq held inside,
      Document.contentsFrom_of_present present, TextBlock.linesBeforeEnd?]
    by_cases closes : depth + BlockMarkup.braceBalance found.content ≤ 0
    · rw [if_pos closes, if_pos closes]
      exact Or.inl rfl
    · rw [if_neg closes, if_neg closes]
      right
      have still := opened.next present (Int.not_le.mp closes) (by omega)
      refine ⟨_, rfl, by simp only; omega, still, ?_⟩
      rw [Option.map_map]
      congr 1
      funext count
      simp only [Function.comp_apply]
      omega
  · rw [if_neg inside, Document.contentsFrom_of_absent (Nat.le_of_not_lt inside)]
    exact Or.inl rfl

/-- A text block is read without a violation from any line but the first. -/
theorem readText_eq (after : 0 < firstLine) :
    readText (.ofDocument document) firstLine = ofChecked (TextBlock.read document firstLine) := by
  have looped : loop (textLine (.ofDocument document)) ((LineTable.ofDocument document).lineCount + 1)
      ⟨1, firstLine⟩ = .ok (TextRead.answer document ⟨1, firstLine⟩) := by
    apply loop_eq (fun done => document.OpenAt done.index done.depth)
      (fun done => document.lineCount - done.index) (TextRead.answer document)
    · intro done opened
      exact textLine_round held opened
    · rw [LineTable.lineCount_ofDocument]
      exact Nat.lt_succ_of_le (Nat.sub_le _ _)
    · exact Document.OpenAt.first document after
  have fits : document.size < wordLimit := Nat.lt_of_lt_of_le held signedLimit_le_wordLimit
  rw [readText, looped, ok_bind, TextRead.answer, TextBlock.read]
  cases counted : TextBlock.linesBeforeEnd? (document.contentsFrom firstLine) 1 with
  | none => rfl
  | some count =>
    have bound := TextBlock.linesBeforeEnd?_lt counted
    rw [Document.length_contentsFrom] at bound
    have closing : firstLine + count < document.lineCount := by omega
    obtain ⟨range, covered⟩ : ∃ range, document.contentRange firstLine (firstLine + count) =
        .ok range := ⟨_, document.contentRange_eq firstLine (firstLine + count)⟩
    have ranged := Document.hasRange_of_contentRange covered closing
    have text := LineTable.textIn_eq fits ranged.start.line_lt ranged.stop.line_lt
    simp only [Option.map_some, contentRange_eq closing, covered, ofChecked_ok, ok_bind, text,
      Checked.ok_bind]
    rfl

end Readers

/-! ## Arrays -/

/-- The item that a line of an array holds. -/
def arrayItem (place : EntryPlace) (content : Text) (index : Nat) : Guarded ArrayItem := do
  match ← entryOn? place content index with
  | some entry => return .entry entry
  | none => return .plainText (← plainText content index)

/-- Looks for the closing line of an array on the next line. -/
def arrayEnd (table : LineTable) (index : Nat) : Guarded (Next Nat (Option Nat)) :=
  if index < table.lineCount then do
    let content ← table.line index
    if isLone Bracket.square.closing content then return .ends (some index)
    else return .goesOn (← add index 1)
  else
    return .ends none

/-- How far the lines of an array have been read. -/
structure ArrayRead where
  items : List ArrayItem
  index : Nat

/-- Reads the next line of an array. -/
def arrayLine (table : LineTable) (closingLine : Nat) (done : ArrayRead) :
    Guarded (Next ArrayRead (List ArrayItem)) :=
  if done.index < closingLine then do
    let content ← table.line done.index
    let following ← add done.index 1
    let place := if following = closingLine then EntryPlace.last else EntryPlace.inner
    return .goesOn ⟨done.items ++ [← arrayItem place content done.index], following⟩
  else
    return .ends done.items

/-- Reads an array from its first content line on. Room is made for as many items
    as there are lines. -/
def readArray (table : LineTable) (firstLine : Nat) :
    Guarded (Except Unclosed (Closed (List ArrayItem))) := do
  match ← loop (arrayEnd table) (table.lineCount + 1) firstLine with
  | none => return .error (.array firstLine)
  | some closingLine =>
    let room ← sub closingLine firstLine
    let items ← loop (arrayLine table closingLine) (room + 1) ⟨[], firstLine⟩
    return .ok ⟨items, closingLine⟩

/-- A line of an array is read without a violation. -/
theorem arrayItem_eq (place : EntryPlace) (content : Text) (index : Nat) :
    arrayItem place content index = .ok (ArrayBlock.item place content index) := by
  rw [arrayItem, entryOn?_eq, ok_bind, ArrayBlock.item]
  cases Entry.ofLine? place content index with
  | some entry => rfl
  | none =>
    rw [plainText_eq]
    rfl

/-- The line that closes an array, if there is one at the index or after it. -/
def arrayEndFrom (document : Document) (index : Nat) : Option Nat :=
  ((document.contentsFrom index).findIdx? (isLone Bracket.square.closing)).map (index + ·)

/-- The items so far and those of the lines that remain up to the closing
    line. -/
def ArrayRead.answer (document : Document) (closingLine : Nat) (done : ArrayRead) :
    List ArrayItem :=
  done.items ++ ArrayBlock.items ((document.contentsFrom done.index).take
    (closingLine - done.index)) done.index

section Readers

variable {document : Document} {firstLine : Nat} (held : document.size < signedLimit)

include held

/-- A round of the search for the end of an array finds it or goes one line further. -/
theorem arrayEnd_round (index : Nat) :
    arrayEnd (.ofDocument document) index = .ok (.ends (arrayEndFrom document index)) ∨
      ∃ next, arrayEnd (.ofDocument document) index = .ok (.goesOn next) ∧
        document.lineCount - next < document.lineCount - index ∧ True ∧
        arrayEndFrom document next = arrayEndFrom document index := by
  simp only [arrayEnd, arrayEndFrom, LineTable.lineCount_ofDocument]
  by_cases inside : index < document.lineCount
  · have present := List.getElem?_eq_getElem (l := document.lines) inside
    simp only [if_pos inside, LineTable.line_eq present, ok_bind, following_eq held inside,
      Document.contentsFrom_of_present present, List.findIdx?_cons]
    cases isLone Bracket.square.closing (document.lines[index]).content with
    | true => exact Or.inl rfl
    | false =>
      refine Or.inr ⟨index + 1, rfl, by omega, trivial, ?_⟩
      rw [if_neg (by decide), Option.map_map]
      congr 1
      funext count
      simp only [Function.comp_apply]
      omega
  · rw [if_neg inside, Document.contentsFrom_of_absent (Nat.le_of_not_lt inside)]
    exact Or.inl rfl

/-- Up to the closing line every line is an item. -/
theorem arrayLine_round {closingLine : Nat} (present : closingLine < document.lineCount)
    {done : ArrayRead} (before : done.index ≤ closingLine) :
    arrayLine (.ofDocument document) closingLine done =
        .ok (.ends (done.answer document closingLine)) ∨
      ∃ next, arrayLine (.ofDocument document) closingLine done = .ok (.goesOn next) ∧
        closingLine - next.index < closingLine - done.index ∧ next.index ≤ closingLine ∧
        next.answer document closingLine = done.answer document closingLine := by
  obtain ⟨items, index⟩ := done
  simp only [arrayLine, ArrayRead.answer] at before ⊢
  by_cases inside : index < closingLine
  · have found := List.getElem?_eq_getElem (l := document.lines) (Nat.lt_trans inside present)
    simp only [if_pos inside, LineTable.line_eq found, ok_bind,
      following_eq held (Nat.lt_trans inside present), arrayItem_eq,
      Document.contentsFrom_of_present found]
    refine Or.inr ⟨_, rfl, by simp only; omega, inside, ?_⟩
    have remaining : closingLine - index = closingLine - (index + 1) + 1 := by omega
    have last : ((document.contentsFrom (index + 1)).take (closingLine - (index + 1)) = []) ↔
        index + 1 = closingLine := by
      rw [← List.length_eq_zero_iff, List.length_take, Document.length_contentsFrom]
      omega
    simp only [remaining, List.take_succ_cons, ArrayBlock.items_cons, last, List.append_assoc,
      List.singleton_append]
  · rw [if_neg inside, Nat.sub_eq_zero_of_le (Nat.le_of_not_lt inside), List.take_zero,
      ArrayBlock.items, List.append_nil]
    exact Or.inl rfl

/-- An array is read without a violation. -/
theorem readArray_eq :
    readArray (.ofDocument document) firstLine =
      .ok (ArrayBlock.read (document.contentsFrom firstLine) firstLine) := by
  have searched : loop (arrayEnd (.ofDocument document))
      ((LineTable.ofDocument document).lineCount + 1) firstLine =
        .ok (arrayEndFrom document firstLine) := by
    apply loop_eq (fun _ => True) (fun index => document.lineCount - index) (arrayEndFrom document)
    · intro index _
      exact arrayEnd_round held index
    · rw [LineTable.lineCount_ofDocument]
      exact Nat.lt_succ_of_le (Nat.sub_le _ _)
    · trivial
  rw [readArray, searched, ok_bind, arrayEndFrom, ArrayBlock.read]
  cases found : (document.contentsFrom firstLine).findIdx? (isLone Bracket.square.closing) with
  | none => rfl
  | some count =>
    have bound := (List.findIdx?_eq_some_iff_findIdx_eq.mp found).1
    rw [Document.length_contentsFrom] at bound
    have read : loop (arrayLine (.ofDocument document) (firstLine + count)) (count + 1)
        ⟨[], firstLine⟩ = .ok (ArrayRead.answer document (firstLine + count) ⟨[], firstLine⟩) := by
      apply loop_eq (fun done => done.index ≤ firstLine + count)
        (fun done => firstLine + count - done.index) (ArrayRead.answer document (firstLine + count))
      · intro done before
        exact arrayLine_round held (by omega) before
      · simp only
        omega
      · exact Nat.le_add_right firstLine count
    change (sub (firstLine + count) firstLine >>= _) = _
    rw [sub_eq (Nat.le_add_right _ _), ok_bind, Nat.add_sub_cancel_left, read, ok_bind,
      ArrayRead.answer, Nat.add_sub_cancel_left]
    rfl

end Readers

/-! ## Contents -/

/-- Reads the content of a block of that kind from its first content line on. -/
def readContent (table : LineTable) (firstLine : Nat) :
    ContentKind → Guarded (Except Unclosed (Closed BlockContent))
  | .array => do
    return (← readArray table firstLine).map (Closed.map .array)
  | .dictionary => do
    return (← readDictionary table firstLine).map (Closed.map .dictionary)
  | .text | .code => do
    return (← readText table firstLine).map (Closed.map .text)

/-- The content of a block is read without a violation. -/
theorem readContent_eq {document : Document} (held : document.size < signedLimit) {firstLine : Nat}
    (after : 0 < firstLine) (kind : ContentKind) :
    readContent (.ofDocument document) firstLine kind =
      ofChecked (Block.readContent document firstLine kind) := by
  cases kind with
  | array =>
    rw [readContent, readArray_eq held]
    rfl
  | dictionary =>
    rw [readContent, readDictionary_eq held after]
    rfl
  | text =>
    rw [readContent, Block.readContent, readText_eq held after]
    cases TextBlock.read document firstLine <;> rfl
  | code =>
    rw [readContent, Block.readContent, readText_eq held after]
    cases TextBlock.read document firstLine <;> rfl

end Guarded

end BlockMarkup
