import BlockMarkup.Block.Reader
import BlockMarkup.Proofs.Position.LineNumbers

/-!
# Renumbering the lines of a block

The line numbers of a block stand in its ranges and in nothing else. `mapLines`
applies a function to all of them, for every kind of item, for a block, and for
what the readers keep on the way.

What is made of a single line takes the line number as it comes, so it commutes
with every renumbering. The readers count on from line to line, so they commute
with moving all lines by one number: the same lines further down give the same
content further down.
-/

namespace BlockMarkup

/-! ## The line numbers of blocks -/

/-- A plain line with its line numbers replaced. -/
def PlainText.mapLines (f : Nat → Nat) (plain : PlainText) : PlainText :=
  { plain with range := plain.range.mapLines f }

/-- An element with its line numbers replaced. -/
def ArrayValue.mapLines (f : Nat → Nat) (value : ArrayValue) : ArrayValue :=
  { value with range := value.range.mapLines f }

/-- A field with the line numbers of its key and its value replaced. -/
def SimpleField.mapLines (f : Nat → Nat) (field : SimpleField) : SimpleField :=
  { field with keyRange := field.keyRange.mapLines f, valueRange := field.valueRange.mapLines f }

/-- An array field with its line numbers replaced, down to its elements. -/
def ArrayField.mapLines (f : Nat → Nat) (field : ArrayField) : ArrayField :=
  { field with
    keyRange := field.keyRange.mapLines f
    values := field.values.map (ArrayValue.mapLines f)
    plainText := field.plainText.map (PlainText.mapLines f) }

/-- An item of a dictionary with its line numbers replaced. -/
def DictionaryItem.mapLines (f : Nat → Nat) : DictionaryItem → DictionaryItem
  | .field simple => .field (simple.mapLines f)
  | .arrayField array => .arrayField (array.mapLines f)
  | .plainText plain => .plainText (plain.mapLines f)

/-- An entry with its line numbers replaced. -/
def Entry.mapLines (f : Nat → Nat) (entry : Entry) : Entry :=
  { entry with entryRange := entry.entryRange.mapLines f }

/-- An item of an array with its line numbers replaced. -/
def ArrayItem.mapLines (f : Nat → Nat) : ArrayItem → ArrayItem
  | .entry found => .entry (found.mapLines f)
  | .plainText plain => .plainText (plain.mapLines f)

/-- The content of a block with its line numbers replaced. A text has none. -/
def BlockContent.mapLines (f : Nat → Nat) : BlockContent → BlockContent
  | .text content => .text content
  | .dictionary items => .dictionary (items.map (DictionaryItem.mapLines f))
  | .array items => .array (items.map (ArrayItem.mapLines f))

/-- A reference with the line numbers of both its ranges replaced. -/
def VariableReference.mapLines (f : Nat → Nat) (reference : VariableReference) :
    VariableReference :=
  { reference with nameRange := reference.nameRange.mapLines f }

/-- A header with its line number replaced. -/
def BlockHeader.mapLines (f : Nat → Nat) (header : BlockHeader) : BlockHeader :=
  { header with nameRange := header.nameRange.mapLines f }

/-- The block with every line number of every range replaced. -/
def Block.mapLines (f : Nat → Nat) (block : Block) : Block where
  name := block.name
  nameRange := block.nameRange.mapLines f
  content := block.content.mapLines f
  contentRange := block.contentRange.mapLines f
  range := block.range.mapLines f
  references := block.references.map (VariableReference.mapLines f)

/-- The cause with the line number that it names replaced. -/
def Unclosed.mapLines (f : Nat → Nat) : Unclosed → Unclosed
  | .dictionary firstLine => .dictionary (f firstLine)
  | .arrayField key line => .arrayField key (f line)
  | .array firstLine => .array (f firstLine)
  | .text firstLine => .text (f firstLine)

/-- What was read with its closing line renumbered, the content being changed by
    `change`. -/
def Closed.mapLines {α : Type} (f : Nat → Nat) (change : α → α) (closed : Closed α) : Closed α :=
  ⟨change closed.content, f closed.closingLine⟩

/-- The outcome of reading, renumbered: what was read, or what is never closed. -/
def Unclosed.mapOutcome {α : Type} (f : Nat → Nat) (change : α → α) :
    Except Unclosed α → Except Unclosed α
  | .ok found => .ok (change found)
  | .error cause => .error (cause.mapLines f)

/-! ## Undoing a renumbering -/

section Cancel

variable {f g : Nat → Nat} (inverse : ∀ line, g (f line) = line)

include inverse

/-- A plain line gets its line numbers back. -/
theorem PlainText.mapLines_cancel (plain : PlainText) : (plain.mapLines f).mapLines g = plain := by
  simp [mapLines, Range.mapLines_cancel inverse]

/-- An element gets its line numbers back. -/
theorem ArrayValue.mapLines_cancel (value : ArrayValue) :
    (value.mapLines f).mapLines g = value := by
  simp [mapLines, Range.mapLines_cancel inverse]

omit inverse in
/-- A list is given back if each of its elements is. -/
theorem map_cancel {α : Type} {there back : α → α} (cancel : ∀ a, back (there a) = a)
    (values : List α) : (values.map there).map back = values := by
  rw [List.map_map, show back ∘ there = id from funext cancel, List.map_id]

/-- An item of a dictionary gets its line numbers back. -/
theorem DictionaryItem.mapLines_cancel (item : DictionaryItem) :
    (item.mapLines f).mapLines g = item := by
  cases item with
  | field simple => simp [mapLines, SimpleField.mapLines, Range.mapLines_cancel inverse]
  | arrayField array =>
    simp only [mapLines, ArrayField.mapLines, Range.mapLines_cancel inverse,
      map_cancel (ArrayValue.mapLines_cancel inverse),
      map_cancel (PlainText.mapLines_cancel inverse)]
  | plainText plain => simp only [mapLines, PlainText.mapLines_cancel inverse]

/-- An item of an array gets its line numbers back. -/
theorem ArrayItem.mapLines_cancel (item : ArrayItem) : (item.mapLines f).mapLines g = item := by
  cases item with
  | entry found => simp [mapLines, Entry.mapLines, Range.mapLines_cancel inverse]
  | plainText plain => simp only [mapLines, PlainText.mapLines_cancel inverse]

/-- The content of a block gets its line numbers back. -/
theorem BlockContent.mapLines_cancel (content : BlockContent) :
    (content.mapLines f).mapLines g = content := by
  cases content with
  | text content => rfl
  | dictionary items => simp only [mapLines, map_cancel (DictionaryItem.mapLines_cancel inverse)]
  | array items => simp only [mapLines, map_cancel (ArrayItem.mapLines_cancel inverse)]

/-- A block gets its line numbers back, references included. -/
theorem Block.mapLines_cancel (block : Block) : (block.mapLines f).mapLines g = block := by
  have references : ∀ reference : VariableReference,
      (reference.mapLines f).mapLines g = reference := by
    intro reference
    simp [VariableReference.mapLines, Range.mapLines_cancel inverse]
  simp only [mapLines, Range.mapLines_cancel inverse, BlockContent.mapLines_cancel inverse,
    map_cancel references]

end Cancel

/-! ## Single lines -/

section Line

variable (f : Nat → Nat) (content : Text) (index : Nat)

/-- A plain line is read under another number as the same with that number. -/
theorem PlainText.ofLine_map : ofLine content (f index) = (ofLine content index).mapLines f := rfl

/-- A header is found in a line whatever its number. -/
theorem BlockHeader.ofLine?_map :
    ofLine? content (f index) = (ofLine? content index).map (mapLines f) := by
  simp only [ofLine?, Option.map_map]
  rfl

/-- So is a field. -/
theorem SimpleField.ofLine?_map :
    ofLine? content (f index) = (ofLine? content index).map (mapLines f) := by
  simp only [ofLine?, Option.map_map]
  rfl

/-- So is an entry, in either place. -/
theorem Entry.ofLine?_map (place : EntryPlace) :
    ofLine? place content (f index) = (ofLine? place content index).map (mapLines f) := by
  unfold ofLine?
  split
  · rfl
  · rw [Option.map_map]
    rfl

/-- A line holds the same item of an array under another number. -/
theorem ArrayBlock.item_map (place : EntryPlace) :
    item place content (f index) = (item place content index).mapLines f := by
  unfold item
  rw [Entry.ofLine?_map]
  cases Entry.ofLine? place content index <;> rfl

/-- An array field that grows by a line does so under any number. -/
theorem ArrayField.addLine_map (field : ArrayField) :
    (field.mapLines f).addLine content (f index) = (field.addLine content index).mapLines f := by
  unfold addLine
  split
  · simp [mapLines, PlainText.ofLine_map]
  · simp [mapLines, ArrayValue.mapLines]

end Line

/-! ## Dictionaries -/

namespace Dictionary

/-- What a dictionary has begun, with its line numbers replaced. -/
def State.mapLines (f : Nat → Nat) : State → State
  | .idle => .idle
  | .held field => .held (field.mapLines f)
  | .collecting field => .collecting (field.mapLines f)

/-- The effect of a line with its line numbers replaced. -/
def Step.mapLines (f : Nat → Nat) : Step → Step
  | .closes => .closes
  | .goesOn items state depth =>
    .goesOn (items.map (DictionaryItem.mapLines f)) (state.mapLines f) depth

/-- A dictionary that ends too early is told by the replaced number. -/
theorem State.unclosed_map (f : Nat → Nat) (firstLine : Nat) (state : State) :
    (state.mapLines f).unclosed (f firstLine) = (state.unclosed firstLine).mapLines f := by
  cases state <;> rfl

/-- Where a field goes does not depend on its line number. -/
theorem place_map (f : Nat → Nat) (field : SimpleField) :
    place (field.mapLines f) =
      ((place field).1.map (DictionaryItem.mapLines f), (place field).2.mapLines f) := by
  have value : (field.mapLines f).value = field.value := rfl
  unfold place
  rw [value]
  split <;> rfl

/-- An array field collects a line alike under any number. -/
theorem collect_map (f : Nat → Nat) (field : ArrayField) (content : Text) (index : Nat)
    (depth : Int) :
    collect (field.mapLines f) content (f index) depth =
      (collect field content index depth).mapLines f := by
  unfold collect
  split
  · rfl
  · rw [ArrayField.addLine_map]
    rfl

/-- A line has the same effect under another number. -/
theorem step_map (f : Nat → Nat) (state : State) (depth : Int) (content : Text) (index : Nat) :
    step (state.mapLines f) depth content (f index) =
      (step state depth content index).mapLines f := by
  unfold step
  rw [SimpleField.ofLine?_map]
  cases state with
  | collecting field => exact collect_map f field content index depth
  | held held =>
    cases SimpleField.ofLine? content index with
    | none => exact collect_map f (ArrayField.ofKey held) content index depth
    | some field => simp [State.mapLines, place_map, Step.mapLines, DictionaryItem.mapLines]
  | idle =>
    cases SimpleField.ofLine? content index with
    | none =>
      simp only [State.mapLines, Option.map_none]
      split
      · rfl
      · simp [Step.mapLines, State.mapLines, DictionaryItem.mapLines, PlainText.ofLine_map]
    | some field => simp [State.mapLines, place_map, Step.mapLines]

/-- The same lines further down are the same dictionary further down. -/
theorem run_add (count firstLine : Nat) (lines : List Text) (index : Nat) (state : State)
    (depth : Int) :
    run (firstLine + count) lines (index + count) (state.mapLines (· + count)) depth =
      Unclosed.mapOutcome (· + count)
        (Closed.mapLines (· + count) (List.map (DictionaryItem.mapLines (· + count))))
        (run firstLine lines index state depth) := by
  induction lines generalizing index state depth with
  | nil => exact congrArg Except.error (State.unclosed_map (· + count) firstLine state)
  | cons content rest hypothesis =>
    have stepped := step_map (· + count) state depth content index
    simp only [run]
    rw [stepped]
    cases step state depth content index with
    | closes => rfl
    | goesOn items next deeper =>
      have later := hypothesis (index + 1) next deeper
      rw [Nat.add_right_comm] at later
      simp only [Step.mapLines, later]
      cases run firstLine rest (index + 1) next deeper with
      | error cause => rfl
      | ok closed => simp [Unclosed.mapOutcome, Except.map, Closed.map, Closed.mapLines]

/-- A dictionary that begins some lines further on is read as the same, so many lines
    further on. -/
theorem read_add (count firstLine : Nat) (lines : List Text) :
    read lines (firstLine + count) =
      Unclosed.mapOutcome (· + count)
        (Closed.mapLines (· + count) (List.map (DictionaryItem.mapLines (· + count))))
        (read lines firstLine) :=
  run_add count firstLine lines firstLine .idle 1

end Dictionary

/-! ## Arrays -/

namespace ArrayBlock

/-- So are the items of an array. -/
theorem items_add (count : Nat) (lines : List Text) (index : Nat) :
    items lines (index + count) = (items lines index).map (ArrayItem.mapLines (· + count)) := by
  induction lines generalizing index with
  | nil => rfl
  | cons content rest hypothesis =>
    cases rest with
    | nil => exact congrArg (fun last => [last]) (item_map (· + count) content index .last)
    | cons next others =>
      have first := item_map (· + count) content index .inner
      have later := hypothesis (index + 1)
      rw [Nat.add_right_comm] at later
      change item .inner content (index + count) :: items (next :: others) (index + count + 1) = _
      rw [first, later]
      rfl

/-- The same lines further down are the same array further down. -/
theorem read_add (count firstLine : Nat) (lines : List Text) :
    read lines (firstLine + count) =
      Unclosed.mapOutcome (· + count)
        (Closed.mapLines (· + count) (List.map (ArrayItem.mapLines (· + count))))
        (read lines firstLine) := by
  unfold read
  cases lines.findIdx? (isLone Bracket.square.closing) with
  | none => rfl
  | some found =>
    simp only [Unclosed.mapOutcome, Closed.mapLines, items_add]
    rw [Nat.add_right_comm]

end ArrayBlock

end BlockMarkup
