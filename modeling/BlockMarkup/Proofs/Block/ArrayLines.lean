import BlockMarkup.Proofs.Block.Layout
import BlockMarkup.Proofs.Grammar.Entry

/-!
# The lines of an array block

An array block ends at the first line that is a closing square bracket, and it
has one item for each line before that, in their order. `ArrayBlock.Layout` says
so of items and a closing line, and says of each item what the line holds: an
entry, parted from the line at its end, or the line itself where there is none.
Which end a line must have depends only on whether the closing line follows it.

An array is read as what is laid out on its lines, and there is such a layout as
soon as there is a closing bracket.
-/

namespace BlockMarkup

/-- The place of an entry on a line of a block with that closing line. -/
def EntryPlace.before (closingLine index : Nat) : EntryPlace :=
  if index + 1 = closingLine then .last else .inner

/-- Whether a line of a document is a closing square bracket, blanks around it
    left aside. -/
def Document.ClosesArray (document : Document) (index : Nat) : Prop :=
  ∃ content, document.contentAt? index = some content ∧
    Text.trim content = [Bracket.square.closing]

/-- Whether an item is what stands on a line of a document. A line is plain text
    only if it is parted into no entry. -/
def ArrayItem.StandsAt (document : Document) (place : EntryPlace) (index : Nat) : ArrayItem → Prop
  | .entry found => ∃ content body, document.contentAt? index = some content ∧
      PartsEntry place content body found.disabled found.entry ∧
      found = Entry.ofParts body found.disabled found.entry index
  | .plainText plain => ∃ content, document.contentAt? index = some content ∧
      (∀ body disabled entry, ¬ PartsEntry place content body disabled entry) ∧
      plain = ⟨content, Range.ofLength index 0 (Text.size content)⟩

/-- Whether items and a closing line are what stands in a document from a line
    on. -/
structure ArrayBlock.Layout (document : Document) (firstLine : Nat)
    (closed : Closed (List ArrayItem)) : Prop where
  after : firstLine ≤ closed.closingLine
  closes : document.ClosesArray closed.closingLine
  /-- No line before the closing line could close the block. -/
  unclosed : ∀ index, firstLine ≤ index → index < closed.closingLine →
    ¬ document.ClosesArray index
  count : closed.content.length = closed.closingLine - firstLine
  /-- The items stand on the lines one after the other. -/
  places : ∀ number (item : ArrayItem), closed.content[number]? = some item →
    item.StandsAt document (.before closed.closingLine (firstLine + number)) (firstLine + number)

/-! ## Single lines -/

namespace ArrayItem

variable {document : Document} {place : EntryPlace} {index : Nat}

/-- What stands on a line is the item that the line is read as. -/
theorem standsAt_iff (found : ArrayItem) :
    found.StandsAt document place index ↔
      (document.contentAt? index).map (ArrayBlock.item place · index) = some found := by
  rw [Option.map_eq_some_iff]
  cases found with
  | entry found =>
    constructor
    · rintro ⟨content, body, here, parts, made⟩
      have held := (Entry.ofLine?_eq_some_iff place content index found).mpr
        ⟨body, _, _, parts, made⟩
      exact ⟨content, here, by rw [ArrayBlock.item, held]⟩
    · rintro ⟨content, here, made⟩
      unfold ArrayBlock.item at made
      split at made
      · next entry held =>
        cases made
        obtain ⟨body, disabled, entry, parts, rfl⟩ :=
          (Entry.ofLine?_eq_some_iff place content index _).mp held
        exact ⟨content, body, here, parts, rfl⟩
      · cases made
  | plainText plain =>
    constructor
    · rintro ⟨content, here, noEntry, rfl⟩
      refine ⟨content, here, ?_⟩
      unfold ArrayBlock.item
      split
      · next entry held =>
        obtain ⟨body, disabled, entry, parts, _⟩ :=
          (Entry.ofLine?_eq_some_iff place content index _).mp held
        exact absurd parts (noEntry body disabled entry)
      · rfl
    · rintro ⟨content, here, made⟩
      unfold ArrayBlock.item at made
      split at made
      · cases made
      · next none =>
        cases made
        refine ⟨content, here, ?_, rfl⟩
        intro body disabled entry parts
        have held := (Entry.ofLine?_eq_some_iff place content index _).mpr
          ⟨body, disabled, entry, parts, rfl⟩
        rw [none] at held
        cases held

end ArrayItem

namespace ArrayBlock

/-- There is an item for each line, and only the last line is at the last
    place. -/
theorem getElem?_items (lines : List Text) (index number : Nat) :
    (items lines index)[number]? = lines[number]?.map
      (item (.before (index + lines.length) (index + number)) · (index + number)) := by
  induction lines generalizing index number with
  | nil => rfl
  | cons content rest hypothesis =>
    rw [items_cons]
    cases number with
    | zero =>
      have place : EntryPlace.before (index + (content :: rest).length) (index + 0) =
          if rest = [] then .last else .inner := by
        rw [EntryPlace.before, List.length_cons]
        by_cases single : rest = []
        · simp [single]
        · have more := List.length_pos_iff.mpr single
          rw [if_neg single, if_neg (by omega)]
      rw [List.getElem?_cons_zero, List.getElem?_cons_zero, Option.map_some, place]
      rfl
    | succ number =>
      have lengths : index + (content :: rest).length = index + 1 + rest.length := by
        rw [List.length_cons]
        omega
      have next : index + (number + 1) = index + 1 + number := by omega
      rw [List.getElem?_cons_succ, List.getElem?_cons_succ, hypothesis, lengths, next]

/-- Every line between the brackets holds one item. -/
theorem length_items (lines : List Text) (index : Nat) :
    (items lines index).length = lines.length := by
  induction lines generalizing index with
  | nil => rfl
  | cons content rest hypothesis => rw [items_cons, List.length_cons, hypothesis, List.length_cons]

/-! ## The closing line -/

variable {document : Document} {firstLine : Nat}

/-- A line closes the array if it has a lone bracket among the lines that are read. -/
theorem closesArray_add_iff (count : Nat) :
    document.ClosesArray (firstLine + count) ↔
      ∃ content, (document.contentsFrom firstLine)[count]? = some content ∧
        isLone Bracket.square.closing content = true := by
  simp only [Document.ClosesArray, Document.contentsFrom_getElem?, isLone, beq_iff_eq]

/-- The search for a closing bracket finds the first line that is one. -/
theorem findIdx?_eq_some_iff (count : Nat) :
    (document.contentsFrom firstLine).findIdx? (isLone Bracket.square.closing) = some count ↔
      document.ClosesArray (firstLine + count) ∧
        ∀ index, firstLine ≤ index → index < firstLine + count → ¬ document.ClosesArray index := by
  rw [List.findIdx?_eq_some_iff_getElem, closesArray_add_iff]
  constructor
  · rintro ⟨bound, lone, earlier⟩
    refine ⟨⟨_, List.getElem?_eq_getElem bound, lone⟩, ?_⟩
    intro index after before closes
    obtain ⟨number, rfl⟩ := Nat.exists_eq_add_of_le after
    obtain ⟨content, here, also⟩ := (closesArray_add_iff number).mp closes
    obtain ⟨_, rfl⟩ := List.getElem?_eq_some_iff.mp here
    exact earlier number (by omega) also
  · rintro ⟨⟨content, here, lone⟩, earlier⟩
    obtain ⟨bound, rfl⟩ := List.getElem?_eq_some_iff.mp here
    refine ⟨bound, lone, ?_⟩
    intro number before also
    have closes := (closesArray_add_iff number).mpr
      ⟨_, List.getElem?_eq_getElem (by omega), also⟩
    exact earlier (firstLine + number) (by omega) (by omega) closes

/-- What is read is laid out on the lines. -/
theorem layout_of_read {closed : Closed (List ArrayItem)}
    (ended : read (document.contentsFrom firstLine) firstLine = .ok closed) :
    Layout document firstLine closed := by
  obtain ⟨count, found, rfl⟩ := read_eq_ok ended
  obtain ⟨closes, unclosed⟩ := (findIdx?_eq_some_iff count).mp found
  obtain ⟨bound, _⟩ := List.findIdx?_eq_some_iff_getElem.mp found
  have taken : ((document.contentsFrom firstLine).take count).length = count :=
    List.length_take_of_le (Nat.le_of_lt bound)
  refine ⟨Nat.le_add_right _ _, closes, unclosed, ?_, ?_⟩
  · simp only [length_items, taken]
    omega
  · intro number item present
    simp only [getElem?_items, taken] at present
    obtain ⟨content, here, made⟩ := Option.map_eq_some_iff.mp present
    obtain ⟨inside, _⟩ := List.getElem?_eq_some_iff.mp here
    rw [taken] at inside
    rw [List.getElem?_take_of_lt inside, Document.contentsFrom_getElem?] at here
    rw [ArrayItem.standsAt_iff, here, Option.map_some, made]

/-- What is laid out on the lines is read. -/
theorem read_of_layout {closed : Closed (List ArrayItem)}
    (layout : Layout document firstLine closed) :
    read (document.contentsFrom firstLine) firstLine = .ok closed := by
  obtain ⟨content, closingLine⟩ := closed
  obtain ⟨after, closes, unclosed, counted, places⟩ := layout
  simp only at after closes unclosed counted places
  obtain ⟨count, rfl⟩ := Nat.exists_eq_add_of_le after
  have found := (findIdx?_eq_some_iff count).mpr ⟨closes, unclosed⟩
  obtain ⟨bound, _⟩ := List.findIdx?_eq_some_iff_getElem.mp found
  have taken : ((document.contentsFrom firstLine).take count).length = count :=
    List.length_take_of_le (Nat.le_of_lt bound)
  have same : items ((document.contentsFrom firstLine).take count) firstLine = content := by
    apply List.ext_getElem?
    intro number
    rw [getElem?_items, taken]
    by_cases inside : number < count
    · have present := List.getElem?_eq_getElem (l := content) (i := number) (by omega)
      have stands := (ArrayItem.standsAt_iff _).mp (places number _ present)
      rw [List.getElem?_take_of_lt inside, Document.contentsFrom_getElem?, stands, present]
    · rw [List.getElem?_eq_none (by omega), List.getElem?_eq_none (by omega)]
      rfl
  simp only [read, found, same]

/-- An array is read as items and a closing line exactly if these are laid out on
    the lines of the document, and it is read if any line from its first on is a
    closing bracket. -/
theorem read_by_closingBracket (document : Document) (firstLine : Nat) :
    ((∃ closed, read (document.contentsFrom firstLine) firstLine = .ok closed) ↔
      ∃ index, firstLine ≤ index ∧ document.ClosesArray index) ∧
    ∀ closed, read (document.contentsFrom firstLine) firstLine = .ok closed ↔
      Layout document firstLine closed := by
  refine ⟨⟨?_, ?_⟩, ?_⟩
  · rintro ⟨closed, ended⟩
    have layout := layout_of_read ended
    exact ⟨closed.closingLine, layout.after, layout.closes⟩
  · rintro ⟨index, after, closes⟩
    obtain ⟨number, rfl⟩ := Nat.exists_eq_add_of_le after
    obtain ⟨content, here, lone⟩ := (closesArray_add_iff number).mp closes
    cases found : (document.contentsFrom firstLine).findIdx? (isLone Bracket.square.closing) with
    | none =>
      have unclosed := List.findIdx?_eq_none_iff.mp found content (List.mem_of_getElem? here)
      rw [unclosed] at lone
      cases lone
    | some count => exact ⟨_, by rw [read, found]⟩
  · intro closed
    exact ⟨layout_of_read, read_of_layout⟩

/-- A comma behind a bracket makes a line plain text, and so do blanks behind a
    comma. A mark alone is an empty entry; a blank last line is none. -/
example :
    (read ["],".toList, "~ ,".toList, "a, ".toList, ",".toList, " ".toList, "] ".toList] 1).map
        (fun closed => (closed.closingLine, closed.content.map fun item =>
          item.entry?.map fun entry => (entry.disabled, entry.entry))) =
      .ok (6, [none, some (true, []), none, some (false, []), none]) := by
  rfl

end ArrayBlock

end BlockMarkup
