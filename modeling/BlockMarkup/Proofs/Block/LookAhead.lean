import BlockMarkup.Block.Dictionary
import BlockMarkup.Document
import BlockMarkup.Proofs.Text.Cut

/-!
# Dictionaries with a look at the next line

The reader of dictionaries takes one line at a time, and what a field with an
opening square bracket means it knows one line later. A grammar may look ahead:
such a field is the key of an array exactly if the next line is there and is no
field, and then all lines up to the closing bracket are taken in one step.

`readAhead` is that grammar. It has no state but the depth. The reader gives
the same items, the same closing line and the same cause if there is none.
-/

namespace BlockMarkup

/-- The element that a line between the brackets of an array field holds. -/
def ArrayValue.ofLine (content : Text) (index : Nat) : ArrayValue :=
  ⟨ArrayField.elementText content,
    Range.ofLength index (Text.size (Text.leadingBlanks content))
      (Text.size (ArrayField.elementText content))⟩

/-- An array field with further lines between its brackets, the first at the
    index. -/
def ArrayField.withLines (field : ArrayField) (lines : List Text) (index : Nat) : ArrayField :=
  { field with
    values := field.values ++
      ((lines.zipIdx index).filter fun line => !Text.allBlank line.1).map
        fun line => ArrayValue.ofLine line.1 line.2
    plainText := field.plainText ++
      ((lines.zipIdx index).filter fun line => Text.allBlank line.1).map
        fun line => PlainText.ofLine line.1 line.2 }

/-- An array field without further lines is the field itself. -/
@[simp]
theorem ArrayField.withLines_nil (field : ArrayField) (index : Nat) :
    field.withLines [] index = field := by
  simp [withLines]

/-- Lines are added one after the other. -/
theorem ArrayField.withLines_addLine (field : ArrayField) (content : Text) (rest : List Text)
    (index : Nat) :
    (field.addLine content index).withLines rest (index + 1) =
      field.withLines (content :: rest) index := by
  by_cases blank : Text.allBlank content = true
  · simp [withLines, addLine, blank]
  · simp [withLines, addLine, blank, ArrayValue.ofLine]

namespace Dictionary

/-- Whether there is a next line and it is no field. -/
def nextIsNoField (rest : List Text) (index : Nat) : Bool :=
  rest.head?.any fun content => (SimpleField.ofLine? content index).isNone

/-- Reads lines from an index on, at a depth. The first line tells what is done,
    but for a field with an opening bracket, where the next one is looked at. -/
def readAhead (firstLine : Nat) :
    List Text → Nat → Int → Except Unclosed (Closed (List DictionaryItem))
  | [], _, _ => .error (.dictionary firstLine)
  | content :: rest, index, depth =>
    match SimpleField.ofLine? content index with
    | some field =>
      if field.value = [Bracket.square.opening] ∧ nextIsNoField rest (index + 1) then
        -- Fields and braces among the elements are not looked at.
        match rest.findIdx? (isLone Bracket.square.closing) with
        | some count =>
          (readAhead firstLine (rest.drop (count + 1)) (index + 1 + (count + 1)) depth).map
            (Closed.map
              (.arrayField ((ArrayField.ofKey field).withLines (rest.take count) (index + 1)) :: ·))
        | none => .error (.arrayField field.key field.keyRange.start.line)
      else
        (readAhead firstLine rest (index + 1) depth).map (Closed.map (.field field :: ·))
    | none =>
      if depth + braceBalance content ≤ 0 then .ok ⟨[], index⟩
      else
        (readAhead firstLine rest (index + 1) (depth + braceBalance content)).map
          (Closed.map (.plainText (PlainText.ofLine content index) :: ·))
termination_by lines => lines.length
decreasing_by all_goals simp only [List.length_cons, List.length_drop]; omega

/-! ## What the reader does in each state -/

/-- No items in front of the others leave a reading as it is. -/
theorem map_closed_nil (result : Except Unclosed (Closed (List DictionaryItem))) :
    result.map (Closed.map ([] ++ ·)) = result := by
  cases result <;> rfl

/-- Items in front of a result are put there one after the other, whether or not
    there is a result. -/
theorem map_closed_cons (item : DictionaryItem) (items : List DictionaryItem)
    (result : Except Unclosed (Closed (List DictionaryItem))) :
    (result.map (Closed.map (items ++ ·))).map (Closed.map (item :: ·)) =
      result.map (Closed.map (item :: items ++ ·)) := by
  cases result <;> rfl

/-- The value of a field is trimmed, so a character that stands alone in it is
    all of it. -/
theorem isLone_value_iff {content : Text} {index : Nat} {field : SimpleField}
    (found : SimpleField.ofLine? content index = some field) (c : Char) :
    isLone c field.value = true ↔ field.value = [c] := by
  obtain ⟨line, _, rfl⟩ := Option.map_eq_some_iff.mp found
  rw [isLone, Text.trim_trim, beq_iff_eq]

/-- With nothing open, a field is held back if its value is a bracket. -/
theorem run_idle_of_field (firstLine : Nat) {content : Text} {index : Nat} {field : SimpleField}
    (found : SimpleField.ofLine? content index = some field) (rest : List Text) (depth : Int) :
    run firstLine (content :: rest) index .idle depth =
      if field.value = [Bracket.square.opening] then
        run firstLine rest (index + 1) (.held field) depth
      else
        (run firstLine rest (index + 1) .idle depth).map (Closed.map (.field field :: ·)) := by
  have lone := isLone_value_iff found Bracket.square.opening
  by_cases opens : field.value = [Bracket.square.opening]
  · rw [if_pos opens]
    simp only [run, step, found, place, if_pos (lone.mpr opens), map_closed_nil]
  · rw [if_neg opens]
    simp only [run, step, found, place, if_neg (mt lone.mp opens)]
    rfl

/-- A held field that is followed by a line that is no field is the key of an
    array. -/
theorem run_held_of_noField (firstLine : Nat) {lines : List Text} {index : Nat}
    (held : SimpleField) (depth : Int) (opens : nextIsNoField lines index = true) :
    run firstLine lines index (.held held) depth =
      run firstLine lines index (.collecting (ArrayField.ofKey held)) depth := by
  cases lines with
  | nil => cases opens
  | cons content rest =>
    have noField : SimpleField.ofLine? content index = none := Option.isNone_iff_eq_none.mp opens
    simp only [run, step, noField]

/-- A held field that is followed by another field, or by nothing, is an item
    like any other. -/
theorem run_held_of_field (firstLine : Nat) {lines : List Text} {index : Nat}
    (held : SimpleField) (depth : Int) (plain : ¬ nextIsNoField lines index = true) :
    run firstLine lines index (.held held) depth =
      (run firstLine lines index .idle depth).map (Closed.map (.field held :: ·)) := by
  cases lines with
  | nil => rfl
  | cons content rest =>
    cases found : SimpleField.ofLine? content index with
    | none =>
      exfalso
      apply plain
      simp [nextIsNoField, found]
    | some field => simp only [run, step, found, map_closed_cons]

/-- Between the brackets of an array field the reader takes all lines up to the
    closing bracket, whatever else they look like. -/
theorem run_collecting (firstLine : Nat) (lines : List Text) (index : Nat) (field : ArrayField)
    (depth : Int) :
    run firstLine lines index (.collecting field) depth =
      match lines.findIdx? (isLone Bracket.square.closing) with
      | some count =>
        (run firstLine (lines.drop (count + 1)) (index + (count + 1)) .idle depth).map
          (Closed.map (.arrayField (field.withLines (lines.take count) index) :: ·))
      | none => .error (.arrayField field.key field.keyRange.start.line) := by
  induction lines generalizing index field with
  | nil => rfl
  | cons content rest hypothesis =>
    rw [run, step, collect, List.findIdx?_cons]
    by_cases closes : isLone Bracket.square.closing content = true
    · rw [if_pos closes, if_pos closes]
      simp only [List.take_zero, ArrayField.withLines_nil]
      rfl
    · rw [if_neg closes, if_neg closes]
      simp only [map_closed_nil, hypothesis]
      cases rest.findIdx? (isLone Bracket.square.closing) with
      | none =>
        simp only [Option.map_none, ArrayField.addLine]
        split <;> rfl
      | some count =>
        have next : index + 1 + (count + 1) = index + (count + 1 + 1) := by omega
        simp only [Option.map_some, List.take_succ_cons, List.drop_succ_cons,
          ArrayField.withLines_addLine, next]

/-- The reader reads what the grammar reads. The induction follows the grammar:
    where it takes a whole array in one step, the reader goes through the held
    field and then through the lines of the array. -/
theorem run_eq_readAhead (firstLine : Nat) (lines : List Text) (index : Nat) (depth : Int) :
    run firstLine lines index .idle depth = readAhead firstLine lines index depth := by
  fun_induction readAhead firstLine lines index depth with
  | case1 => rfl
  | case2 content rest index depth field found array count closes hypothesis =>
    rw [run_idle_of_field firstLine found, if_pos array.1,
      run_held_of_noField firstLine field depth array.2, run_collecting, closes, ← hypothesis]
  | case3 content rest index depth field found array unclosed =>
    rw [run_idle_of_field firstLine found, if_pos array.1,
      run_held_of_noField firstLine field depth array.2, run_collecting, unclosed]
    rfl
  | case4 content rest index depth field found noArray hypothesis =>
    rw [run_idle_of_field firstLine found, ← hypothesis]
    by_cases opens : field.value = [Bracket.square.opening]
    · rw [if_pos opens, run_held_of_field firstLine field depth fun next => noArray ⟨opens, next⟩]
    · rw [if_neg opens]
  | case5 content rest index depth found closes =>
    simp only [run, step, found, if_pos closes]
  | case6 content rest index depth found deeper hypothesis =>
    simp only [run, step, found, if_neg deeper, ← hypothesis]
    rfl

/-- A dictionary is read as the grammar with a look at the next line reads it. -/
theorem read_eq_readAhead (document : Document) (firstLine : Nat) :
    read (document.contentsFrom firstLine) firstLine =
      readAhead firstLine (document.contentsFrom firstLine) firstLine 1 :=
  run_eq_readAhead firstLine (document.contentsFrom firstLine) firstLine 1

/-- Of two fields with a bracket the first is a field, since the second follows
    it. The brace between the brackets of the second is an element. -/
example :
    (readAhead 1 ["a: [".toList, "b: [".toList, ['}'], [], [']'], ['}']] 1 1).map
        (fun closed => (closed.closingLine, closed.content.map fun item =>
          (item.key?, item.array?.map fun array => array.values.map ArrayValue.content))) =
      .ok (6, [(some "a".toList, none), (some "b".toList, some [['}']])]) := by
  cbv

end Dictionary

end BlockMarkup
