import BlockMarkup.Proofs.Block.Layout

/-!
# A field put in the place of another

What a field says does not matter for anything else in its dictionary. Its key
and its value may hold brackets of any kind and number; the lines before it and
behind it are read as they were, and the dictionary ends where it ended. The one
exception is a value that is an opening square bracket and nothing else, since
that may begin an array.

The layout of a dictionary shows why. An item depends on its own lines, and a
field with an opening bracket also on whether the next line is a field, which
it remains.
-/

namespace BlockMarkup

namespace Document

/-- Whether two documents have the same lines, breaks left aside, but for the
    one at an index. -/
def SameBut (first second : Document) (index : Nat) : Prop :=
  ∀ other, other ≠ index → second.contentAt? other = first.contentAt? other

namespace SameBut

variable {first second : Document} {index : Nat} (same : first.SameBut second index)

include same

/-- Other lines hold the fields that they held before. -/
theorem fieldAt? {other : Nat} (different : other ≠ index) :
    second.fieldAt? other = first.fieldAt? other := by
  rw [Document.fieldAt?, Document.fieldAt?, same other different]

/-- Lines that the index is not among are the same in both documents. -/
theorem take_contentsFrom {start count : Nat} (apart : index < start ∨ start + count ≤ index) :
    (second.contentsFrom start).take count = (first.contentsFrom start).take count := by
  apply List.ext_getElem?
  intro position
  rw [List.getElem?_take, List.getElem?_take]
  split
  · rw [contentsFrom_getElem?, contentsFrom_getElem?]
    exact same (start + position) (by omega)
  · rfl

end SameBut

end Document

/-- A field is told by the line that it was found on. -/
theorem SimpleField.line_of_ofLine? {content : Text} {index : Nat} {field : SimpleField}
    (found : ofLine? content index = some field) : field.keyRange.start.line = index := by
  obtain ⟨line, _, rfl⟩ := Option.map_eq_some_iff.mp found
  rfl

section Frame

variable {first second : Document} {index : Nat} (same : first.SameBut second index)

include same

/-- An array field stays where it is if the changed line is none of its own. -/
theorem ArrayField.StandsAt.of_sameBut {place : Nat} {array : ArrayField}
    (stands : array.StandsAt first place)
    (apart : index < place ∨ place + (array.innerCount + 2) ≤ index) :
    array.StandsAt second place := by
  have inner : (second.contentsFrom (place + 1)).take array.innerCount =
      (first.contentsFrom (place + 1)).take array.innerCount :=
    same.take_contentsFrom (by omega)
  have numbered : second.numbered (place + 1) array.innerCount =
      first.numbered (place + 1) array.innerCount := by
    rw [Document.numbered, Document.numbered, inner]
  refine ⟨?_, ?_, ?_, ?_, ?_, ?_⟩
  · rw [same.fieldAt? (by omega)]
    exact stands.key
  · rw [same.fieldAt? (by omega)]
    exact stands.noField
  · rw [numbered]
    exact stands.values
  · rw [numbered]
    exact stands.plainText
  · rw [inner]
    exact stands.unclosed
  · rw [same _ (by omega)]
    exact stands.closed

/-- An item stays where it is if the changed line is none of its own and is a
    field afterwards. -/
theorem DictionaryItem.standsAt_of_sameBut {place : Nat} {item : DictionaryItem}
    (stands : item.StandsAt first place) (apart : index < place ∨ place + item.lineCount ≤ index)
    (changed : second.fieldAt? index ≠ none) : item.StandsAt second place := by
  cases item with
  | field simple =>
    have different : place ≠ index := by
      simp only [lineCount] at apart
      omega
    refine ⟨(same.fieldAt? different).trans stands.1, ?_⟩
    intro opens
    by_cases next : place + 1 = index
    · rw [next]
      exact changed
    · rw [same.fieldAt? next]
      exact stands.2 opens
  | arrayField array =>
    rw [Dictionary.lineCount_arrayField] at apart
    exact ArrayField.StandsAt.of_sameBut same stands apart
  | plainText plain =>
    have different : place ≠ index := by
      simp only [lineCount] at apart
      omega
    refine ⟨(same.fieldAt? different).trans stands.1, ?_⟩
    rw [same place different]
    exact stands.2

end Frame

namespace Dictionary

open DictionaryItem

/-- Items side by side take the lines of both. -/
theorem lineCount_append (front back : List DictionaryItem) :
    lineCount (front ++ back) = lineCount front + lineCount back := by
  induction front with
  | nil => exact (Nat.zero_add _).symm
  | cons item front hypothesis =>
    rw [List.cons_append, lineCount_cons, lineCount_cons, hypothesis, Nat.add_assoc]

/-- A field takes one line, whichever it is. -/
theorem lineCount_field (before after : List DictionaryItem) (simple : SimpleField) :
    lineCount (before ++ .field simple :: after) = lineCount before + (1 + lineCount after) := by
  rw [lineCount_append, lineCount_cons]
  rfl

/-- A field is no plain text. -/
theorem plainText?_field (before after : List DictionaryItem) (simple : SimpleField) :
    (before ++ .field simple :: after).filterMap plainText? =
      before.filterMap plainText? ++ after.filterMap plainText? := by
  rw [List.filterMap_append, List.filterMap_cons_none rfl]

variable {first second : Document} {firstLine index closingLine : Nat} {depth : Int}
  {before after : List DictionaryItem} {field other : SimpleField}

/-- The line on which a field is laid out is the one that it was found on. -/
theorem Layout.line_eq (layout : Layout first firstLine depth
      ⟨before ++ .field field :: after, closingLine⟩) :
    field.keyRange.start.line = firstLine + lineCount before := by
  obtain ⟨found, _⟩ := layout.places before (.field field) after rfl
  obtain ⟨content, _, read⟩ := Option.bind_eq_some_iff.mp found
  exact SimpleField.line_of_ofLine? read

/-- An item of a list in which a field is put in the place of another stands
    before it, is that field or stands behind it. -/
theorem places_of_changed {item : DictionaryItem} {front back : List DictionaryItem}
    (parts : before ++ .field other :: after = front ++ item :: back) :
    (∃ between, before = front ++ item :: between) ∨
      (front = before ∧ item = .field other) ∨
      ∃ between, front = before ++ .field other :: between ∧ after = between ++ item :: back := by
  rcases List.append_eq_append_iff.mp parts with ⟨middle, rfl, rest⟩ | ⟨middle, rfl, rest⟩
  · rcases List.cons_eq_append_iff.mp rest with ⟨rfl, here⟩ | ⟨between, rfl, behind⟩
    · exact Or.inr (Or.inl ⟨List.append_nil before, (List.cons.inj here).1⟩)
    · exact Or.inr (Or.inr ⟨between, rfl, behind⟩)
  · rcases List.cons_eq_append_iff.mp rest with ⟨rfl, here⟩ | ⟨between, rfl, _⟩
    · exact Or.inr (Or.inl ⟨(List.append_nil front).symm, (List.cons.inj here).1.symm⟩)
    · exact Or.inl ⟨between, rfl⟩

/-- The layout of a dictionary in which a field is put in the place of another.
    The items before it end before its line, and those behind it begin behind
    its line. -/
theorem Layout.changeField (layout : Layout first firstLine depth
      ⟨before ++ .field field :: after, closingLine⟩)
    (same : first.SameBut second (firstLine + lineCount before))
    (found : second.fieldAt? (firstLine + lineCount before) = some other)
    (plain : other.value ≠ [Bracket.square.opening]) :
    Layout second firstLine depth ⟨before ++ .field other :: after, closingLine⟩ := by
  have changed : second.fieldAt? (firstLine + lineCount before) ≠ none := by simp [found]
  have ends := layout.ends
  have closes := layout.closes
  have stays := layout.staysOpen
  simp only [lineCount_field, plainText?_field] at ends closes stays
  have behind : closingLine ≠ firstLine + lineCount before := by omega
  refine ⟨?_, ?_, ?_, ?_, ?_⟩
  · intro front item back parts
    rcases places_of_changed parts with ⟨between, rfl⟩ | ⟨rfl, rfl⟩ | ⟨between, rfl, rfl⟩
    · have stands := layout.places front item (between ++ .field field :: after) (by simp)
      refine standsAt_of_sameBut same stands (Or.inr ?_) changed
      rw [lineCount_append, lineCount_cons]
      omega
    · exact ⟨found, fun opens => absurd opens plain⟩
    · have stands := layout.places (before ++ .field field :: between) item back (by simp)
      rw [lineCount_field] at stands ⊢
      exact standsAt_of_sameBut same stands (Or.inl (by omega)) changed
  · simpa only [lineCount_field] using ends
  · simpa only [plainText?_field] using stays
  · rw [same.fieldAt? behind]
    exact layout.noField
  · rw [same _ behind]
    simpa only [plainText?_field] using closes

/-- A dictionary with a field on a line is read the same, but for that field, if
    the line holds another field whose value is no opening bracket. -/
theorem read_changeField (first second : Document) (firstLine index closingLine : Nat)
    (before after : List DictionaryItem) (field other : SimpleField)
    (same : first.SameBut second index)
    (ended : read (first.contentsFrom firstLine) firstLine =
      .ok ⟨before ++ .field field :: after, closingLine⟩)
    (here : field.keyRange.start.line = index)
    (found : second.fieldAt? index = some other)
    (plain : other.value ≠ [Bracket.square.opening]) :
    read (second.contentsFrom firstLine) firstLine =
      .ok ⟨before ++ .field other :: after, closingLine⟩ := by
  rw [read, run_eq_readAhead] at ended ⊢
  have layout := layout_of_readAhead rfl Int.one_pos ended
  obtain rfl : firstLine + lineCount before = index := layout.line_eq.symm.trans here
  exact readAhead_of_layout firstLine (layout.changeField same found plain)

/-- The second field ends the wait of the first for its array, and waits for an
    array itself. In its place stands one with brackets in its key and in its
    value. -/
theorem read_changeField_waiting :
    ∃ (first second : Document) (before after : DictionaryItem) (field other : SimpleField),
      first.text = "m \x7b\na: [\nb: [\nc: \x7d\n\x7d".toList ∧
      second.text = "m \x7b\na: [\r\nx\x7d\x7d: ]\x7b\x7b\nc: \x7d\n\x7d".toList ∧
      field = ⟨false, ['b'], Range.ofLength 2 0 1, ['['], Range.ofLength 2 3 1⟩ ∧
      other = ⟨false, ['x', '}', '}'], Range.ofLength 2 0 3, [']', '{', '{'],
        Range.ofLength 2 5 3⟩ ∧
      read (first.contentsFrom 1) 1 = .ok ⟨[before, .field field, after], 4⟩ ∧
      read (second.contentsFrom 1) 1 = .ok ⟨[before, .field other, after], 4⟩ := by
  let first := Document.ofText "m \x7b\na: [\nb: [\nc: \x7d\n\x7d".toList
  let second := Document.ofText "m \x7b\na: [\r\nx\x7d\x7d: ]\x7b\x7b\nc: \x7d\n\x7d".toList
  have same : first.SameBut second 2 := by
    have changed : second.lines.map Line.content =
        (first.lines.map Line.content).set 2 "x\x7d\x7d: ]\x7b\x7b".toList := by decide
    intro index different
    simp only [Document.contentAt?, ← List.getElem?_map, changed,
      List.getElem?_set_ne (Ne.symm different)]
  obtain ⟨before, after, ended⟩ : ∃ before after : DictionaryItem,
      read (first.contentsFrom 1) 1 = .ok ⟨[before, .field ⟨false, ['b'], Range.ofLength 2 0 1,
        ['['], Range.ofLength 2 3 1⟩, after], 4⟩ := ⟨_, _, rfl⟩
  refine ⟨first, second, before, after, _, _, rfl, rfl, rfl, rfl, ended, ?_⟩
  exact read_changeField first second 1 2 4 [before] [after] _ _ same ended rfl rfl (by decide)

end Dictionary

end BlockMarkup
