import BlockMarkup.Proofs.Block.LookAhead
import BlockMarkup.Proofs.Block.Reading

/-!
# The lines of a dictionary

The items of a dictionary do not say how many lines they take. A field and a
plain text take one each. An array field takes the line of its key, one line for
each element or blank line, and the line of its closing bracket, although it
keeps elements and blank lines in two lists. Counted that way, the items follow
one another without a gap from the first content line to the closing line.

Only plain text counts for the depth. It stays above zero before the closing
line and is not above zero with it.

`Layout` says all this of a list of items and a closing line, and no other list
and no other closing line fit the same lines: a dictionary is read as what is
laid out on its lines.
-/

namespace BlockMarkup

namespace Document

/-- The content of a line of a document. -/
def contentAt? (document : Document) (index : Nat) : Option Text :=
  document.lines[index]?.map Line.content

/-- The field on a line of a document. -/
def fieldAt? (document : Document) (index : Nat) : Option SimpleField :=
  (document.contentAt? index).bind fun content => SimpleField.ofLine? content index

/-- The contents of a number of lines from an index on, each with its index. -/
def numbered (document : Document) (index count : Nat) : List (Text × Nat) :=
  ((document.contentsFrom index).take count).zipIdx index

end Document

namespace ArrayField

/-- The number of lines between the brackets of an array field. -/
def innerCount (array : ArrayField) : Nat :=
  array.values.length + array.plainText.length

/-- Whether an array field is what stands on the lines from an index on: first
    its key, then a line for each element and each blank line, in the order of
    the lines, then a closing bracket, the first that stands alone. -/
structure StandsAt (document : Document) (index : Nat) (array : ArrayField) : Prop where
  key : ∃ field, document.fieldAt? index = some field ∧ field.value = [Bracket.square.opening] ∧
    array.disabled = field.disabled ∧ array.key = field.key ∧ array.keyRange = field.keyRange
  noField : document.fieldAt? (index + 1) = none
  values : array.values =
    ((document.numbered (index + 1) array.innerCount).filter
      fun line => !Text.allBlank line.1).map fun line => ArrayValue.ofLine line.1 line.2
  plainText : array.plainText =
    ((document.numbered (index + 1) array.innerCount).filter
      fun line => Text.allBlank line.1).map fun line => PlainText.ofLine line.1 line.2
  unclosed : ∀ content ∈ (document.contentsFrom (index + 1)).take array.innerCount,
    isLone Bracket.square.closing content = false
  closed : ∃ content, document.contentAt? (index + 1 + array.innerCount) = some content ∧
    isLone Bracket.square.closing content = true

end ArrayField

namespace DictionaryItem

/-- The number of lines that an item takes. -/
def lineCount : DictionaryItem → Nat
  | .field _ => 1
  | .arrayField array => 2 + array.values.length + array.plainText.length
  | .plainText _ => 1

/-- Whether an item is what stands on the lines from an index on. A field with
    an opening bracket is no key of an array only if another field follows. -/
def StandsAt (document : Document) (index : Nat) : DictionaryItem → Prop
  | .field simple =>
    document.fieldAt? index = some simple ∧
      (simple.value = [Bracket.square.opening] → document.fieldAt? (index + 1) ≠ none)
  | .arrayField array => array.StandsAt document index
  | .plainText plain =>
    document.fieldAt? index = none ∧
      (document.contentAt? index).map (PlainText.ofLine · index) = some plain

end DictionaryItem

namespace Dictionary

open DictionaryItem

/-- The number of lines that items take together. -/
def lineCount : List DictionaryItem → Nat
  | [] => 0
  | item :: items => item.lineCount + lineCount items

/-- How many more curly brackets plain texts open than they close. -/
def balance : List PlainText → Int
  | [] => 0
  | plain :: rest => braceBalance plain.text + balance rest

/-- What an item adds to the depth, which is nothing if it is no plain text. -/
def depthChange (item : DictionaryItem) : Int :=
  balance item.plainText?.toList

/-- Whether items and a closing line are what stands in a document from a line
    on, a number of curly brackets being open there. -/
structure Layout (document : Document) (firstLine : Nat) (depth : Int)
    (closed : Closed (List DictionaryItem)) : Prop where
  /-- Each item stands right behind the lines of those before it. -/
  places : ∀ before item after, closed.content = before ++ item :: after →
    item.StandsAt document (firstLine + lineCount before)
  /-- The closing line comes right behind the last item. -/
  ends : firstLine + lineCount closed.content = closed.closingLine
  /-- A bracket is left open before each plain text and behind the last. -/
  staysOpen : ∀ front, front <+: closed.content.filterMap plainText? → 0 < depth + balance front
  noField : document.fieldAt? closed.closingLine = none
  /-- With the closing line no bracket is left open. -/
  closes : ∃ content, document.contentAt? closed.closingLine = some content ∧
    depth + balance (closed.content.filterMap plainText?) + braceBalance content ≤ 0

end Dictionary

/-! ## Lines -/

namespace Document

variable {document : Document} {index : Nat}

/-- The first of the lines that are left is the line at the index. -/
theorem contentAt?_of_contentsFrom {content : Text} {rest : List Text}
    (remaining : document.contentsFrom index = content :: rest) :
    document.contentAt? index = some content ∧ rest = document.contentsFrom (index + 1) := by
  obtain ⟨⟨line, present, rfl⟩, restEq⟩ := contentsFrom_eq_cons remaining
  refine ⟨?_, restEq⟩
  rw [contentAt?, present]
  rfl

/-- A line that is there is the first of those that are left. -/
theorem contentsFrom_of_contentAt? {content : Text}
    (here : document.contentAt? index = some content) :
    document.contentsFrom index = content :: document.contentsFrom (index + 1) := by
  obtain ⟨line, present, rfl⟩ := Option.map_eq_some_iff.mp here
  exact contentsFrom_of_present present

/-- The index of a line that is there is within the document. -/
theorem lt_lineCount_of_contentAt? {content : Text}
    (here : document.contentAt? index = some content) : index < document.lineCount := by
  obtain ⟨line, present, _⟩ := Option.map_eq_some_iff.mp here
  exact (List.getElem?_eq_some_iff.mp present).1

/-- The lines that are left are counted on from the index. -/
theorem contentsFrom_getElem? (document : Document) (index count : Nat) :
    (document.contentsFrom index)[count]? = document.contentAt? (index + count) := by
  rw [contentsFrom, List.getElem?_map, List.getElem?_drop]
  rfl

/-- Some lines further on, those lines are dropped. -/
theorem contentsFrom_add (document : Document) (index count : Nat) :
    document.contentsFrom (index + count) = (document.contentsFrom index).drop count := by
  rw [contentsFrom, contentsFrom, ← List.map_drop, List.drop_drop]

/-- The field of a line is read from its content. -/
theorem fieldAt?_of_contentAt? {content : Text} (here : document.contentAt? index = some content) :
    document.fieldAt? index = SimpleField.ofLine? content index := by
  rw [fieldAt?, here]
  rfl

/-- A next line that is no field is one that the document has. -/
theorem nextIsNoField_iff (document : Document) (index : Nat) :
    Dictionary.nextIsNoField (document.contentsFrom index) index = true ↔
      index < document.lineCount ∧ document.fieldAt? index = none := by
  cases remaining : document.contentsFrom index with
  | nil =>
    have absent := congrArg List.length remaining
    rw [length_contentsFrom, List.length_nil] at absent
    simp only [Dictionary.nextIsNoField, List.head?_nil, Option.any_none, Bool.false_eq_true,
      false_iff]
    omega
  | cons content rest =>
    obtain ⟨here, _⟩ := contentAt?_of_contentsFrom remaining
    rw [fieldAt?_of_contentAt? here]
    simp [Dictionary.nextIsNoField, lt_lineCount_of_contentAt? here]

end Document

/-! ## Array fields -/

namespace ArrayField

/-- Each line between the brackets is in one of the two lists. -/
theorem innerCount_withLines_ofKey (key : SimpleField) (lines : List Text) (index : Nat) :
    ((ofKey key).withLines lines index).innerCount = lines.length := by
  have parted := List.length_eq_countP_add_countP (l := lines.zipIdx index)
    fun line => Text.allBlank line.1
  simp only [List.length_zipIdx, List.countP_eq_length_filter, Bool.not_eq_true,
    Bool.decide_eq_false] at parted
  simp only [innerCount, withLines, ofKey, List.nil_append, List.length_map, parted]
  omega

/-- The lines up to the first closing bracket are as many as its index tells. -/
theorem innerCount_of_closes {lines : List Text} {count : Nat}
    (closes : lines.findIdx? (isLone Bracket.square.closing) = some count) (key : SimpleField)
    (index : Nat) : ((ofKey key).withLines (lines.take count) index).innerCount = count := by
  obtain ⟨bound, _⟩ := List.findIdx?_eq_some_iff_getElem.mp closes
  rw [innerCount_withLines_ofKey, List.length_take, Nat.min_eq_left (Nat.le_of_lt bound)]

variable {document : Document} {index : Nat}

/-- A key with the lines up to the first closing bracket stands where it was
    found. -/
theorem standsAt_withLines {field : SimpleField} (found : document.fieldAt? index = some field)
    (opens : field.value = [Bracket.square.opening])
    (noField : document.fieldAt? (index + 1) = none) {count : Nat}
    (closes : (document.contentsFrom (index + 1)).findIdx? (isLone Bracket.square.closing) =
      some count) :
    ((ofKey field).withLines ((document.contentsFrom (index + 1)).take count) (index + 1)).StandsAt
      document index := by
  obtain ⟨bound, lone, earlier⟩ := List.findIdx?_eq_some_iff_getElem.mp closes
  have inner := innerCount_of_closes closes field (index + 1)
  refine ⟨⟨field, found, opens, rfl, rfl, rfl⟩, noField, ?_, ?_, ?_, ?_⟩
  · rw [inner]
    rfl
  · rw [inner]
    rfl
  · intro content member
    rw [inner] at member
    obtain ⟨position, before, rfl⟩ := List.mem_take_iff_getElem.mp member
    exact Bool.eq_false_iff.mpr (earlier position (by omega))
  · rw [inner, ← Document.contentsFrom_getElem?, List.getElem?_eq_getElem bound]
    exact ⟨_, rfl, lone⟩

/-- An array field that stands on lines is its key with the lines up to the
    first closing bracket. -/
theorem StandsAt.eq_withLines {array : ArrayField} (stands : array.StandsAt document index) :
    ∃ field, document.fieldAt? index = some field ∧ field.value = [Bracket.square.opening] ∧
      (document.contentsFrom (index + 1)).findIdx? (isLone Bracket.square.closing) =
        some array.innerCount ∧
      (ofKey field).withLines ((document.contentsFrom (index + 1)).take array.innerCount)
        (index + 1) = array := by
  obtain ⟨field, found, opens, disabled, key, keyRange⟩ := stands.key
  obtain ⟨content, here, lone⟩ := stands.closed
  refine ⟨field, found, opens, ?_, ?_⟩
  · rw [← Document.contentsFrom_getElem?] at here
    obtain ⟨bound, rfl⟩ := List.getElem?_eq_some_iff.mp here
    refine List.findIdx?_eq_some_iff_getElem.mpr ⟨bound, lone, ?_⟩
    intro position before
    apply Bool.eq_false_iff.mp
    apply stands.unclosed
    exact List.mem_take_iff_getElem.mpr ⟨position, by omega, rfl⟩
  · rw [ArrayField.mk.injEq]
    exact ⟨disabled.symm, key.symm, keyRange.symm, stands.values.symm, stands.plainText.symm⟩

end ArrayField

/-! ## Counting lines and brackets -/

namespace Dictionary

open DictionaryItem

variable {document : Document} {index closingLine : Nat} {depth : Int}

/-- An array field takes its inner lines, the line of its key and the line that closes
    it. -/
theorem lineCount_arrayField (array : ArrayField) :
    (arrayField array).lineCount = array.innerCount + 2 := by
  simp only [DictionaryItem.lineCount, ArrayField.innerCount]
  omega

/-- The lines of an item come before those of the items after it. -/
@[simp]
theorem lineCount_cons (item : DictionaryItem) (items : List DictionaryItem) :
    lineCount (item :: items) = item.lineCount + lineCount items := rfl

/-- Each plain line changes the depth by its own braces. -/
@[simp]
theorem balance_cons (plain : PlainText) (rest : List PlainText) :
    balance (plain :: rest) = braceBalance plain.text + balance rest := rfl

/-- Without lines the depth stays as it is. -/
@[simp]
theorem balance_nil : balance [] = 0 := rfl

/-- A field never changes the depth, whatever braces its value has. -/
@[simp]
theorem depthChange_field (simple : SimpleField) : depthChange (.field simple) = 0 := rfl

/-- Nor does an array field. -/
@[simp]
theorem depthChange_arrayField (array : ArrayField) : depthChange (.arrayField array) = 0 := rfl

/-- A plain line changes the depth by its braces. -/
@[simp]
theorem depthChange_plainText (plain : PlainText) :
    depthChange (.plainText plain) = braceBalance plain.text := by
  simp [depthChange, plainText?]

/-- The depth changes item by item. -/
theorem balance_filterMap_cons (item : DictionaryItem) (items : List DictionaryItem) :
    balance ((item :: items).filterMap plainText?) =
      depthChange item + balance (items.filterMap plainText?) := by
  cases kind : item.plainText? with
  | none => simp [List.filterMap_cons_none kind, depthChange, kind]
  | some plain => simp [List.filterMap_cons_some kind, depthChange, kind]

/-- The depth stays above zero if it does so before the first item and then with
    it and the others. -/
theorem staysOpen_cons_iff (item : DictionaryItem) (items : List DictionaryItem) :
    (∀ front, front <+: (item :: items).filterMap plainText? → 0 < depth + balance front) ↔
      0 < depth ∧ ∀ front, front <+: items.filterMap plainText? →
        0 < depth + depthChange item + balance front := by
  constructor
  · intro stays
    have deep := stays [] List.nil_prefix
    rw [balance_nil, Int.add_zero] at deep
    refine ⟨deep, ?_⟩
    intro front early
    cases kind : item.plainText? with
    | none =>
      rw [List.filterMap_cons_none kind] at stays
      simpa [depthChange, kind] using stays front early
    | some plain =>
      rw [List.filterMap_cons_some kind] at stays
      have deeper := stays (plain :: front) (List.cons_prefix_cons.mpr ⟨rfl, early⟩)
      simpa [depthChange, kind, Int.add_assoc] using deeper
  · rintro ⟨deep, later⟩ front early
    cases kind : item.plainText? with
    | none =>
      rw [List.filterMap_cons_none kind] at early
      simpa [depthChange, kind] using later front early
    | some plain =>
      rw [List.filterMap_cons_some kind] at early
      rcases List.prefix_cons_iff.mp early with rfl | ⟨tail, rfl, earlier⟩
      · simpa using deep
      · simpa [depthChange, kind, Int.add_assoc] using later tail earlier

/-! ## One item more -/

/-- A layout begins inside the block. -/
theorem Layout.deep {closed : Closed (List DictionaryItem)}
    (layout : Layout document index depth closed) : 0 < depth := by
  simpa using layout.staysOpen [] List.nil_prefix

/-- The closing line is a line of the document, and the items stand before it. -/
theorem Layout.closingLine_bounds {closed : Closed (List DictionaryItem)}
    (layout : Layout document index depth closed) :
    index ≤ closed.closingLine ∧ closed.closingLine < document.lineCount := by
  obtain ⟨content, here, _⟩ := layout.closes
  have ends := layout.ends
  exact ⟨by omega, Document.lt_lineCount_of_contentAt? here⟩

/-- A dictionary without items is closed by the first line. -/
theorem layout_nil_iff :
    Layout document index depth ⟨[], closingLine⟩ ↔
      index = closingLine ∧ 0 < depth ∧ document.fieldAt? index = none ∧
        ∃ content, document.contentAt? index = some content ∧ depth + braceBalance content ≤ 0 := by
  constructor
  · intro layout
    have reached : index = closingLine := by simpa [lineCount] using layout.ends
    subst reached
    have closes := layout.closes
    simp only [List.filterMap_nil, balance_nil, Int.add_zero] at closes
    exact ⟨rfl, layout.deep, layout.noField, closes⟩
  · rintro ⟨rfl, deep, noField, content, here, closes⟩
    refine ⟨?_, rfl, ?_, noField, content, here, ?_⟩
    · intro before item after parts
      simp at parts
    · intro front early
      rw [List.filterMap_nil, List.prefix_nil] at early
      subst early
      simpa using deep
    · simpa using closes

/-- The first item takes its lines, and the others are laid out behind it. -/
theorem layout_cons_iff {item : DictionaryItem} {items : List DictionaryItem} :
    Layout document index depth ⟨item :: items, closingLine⟩ ↔
      item.StandsAt document index ∧ 0 < depth ∧
        Layout document (index + item.lineCount) (depth + depthChange item)
          ⟨items, closingLine⟩ := by
  constructor
  · intro layout
    obtain ⟨content, here, closes⟩ := layout.closes
    obtain ⟨deep, stays⟩ := (staysOpen_cons_iff item items).mp layout.staysOpen
    refine ⟨?_, deep, ?_, ?_, stays, layout.noField, content, here, ?_⟩
    · simpa [lineCount] using layout.places [] item items rfl
    · intro before other after parts
      have placed := layout.places (item :: before) other after (congrArg (item :: ·) parts)
      rwa [lineCount_cons, ← Nat.add_assoc] at placed
    · have ends := layout.ends
      rwa [lineCount_cons, ← Nat.add_assoc] at ends
    · rwa [balance_filterMap_cons, ← Int.add_assoc] at closes
  · rintro ⟨stands, deep, layout⟩
    obtain ⟨content, here, closes⟩ := layout.closes
    refine ⟨?_, ?_, (staysOpen_cons_iff item items).mpr ⟨deep, layout.staysOpen⟩, layout.noField,
      content, here, ?_⟩
    · intro before other after parts
      rcases List.cons_eq_append_iff.mp parts with ⟨rfl, same⟩ | ⟨rest, rfl, same⟩
      · obtain ⟨rfl, rfl⟩ := List.cons.inj same
        simpa [lineCount] using stands
      · have placed := layout.places rest other after same
        rwa [lineCount_cons, ← Nat.add_assoc]
    · have ends := layout.ends
      rwa [lineCount_cons, ← Nat.add_assoc]
    · rwa [balance_filterMap_cons, ← Int.add_assoc]

/-! ## Reading and layout -/

/-- What is read is laid out on the lines. The induction follows the grammar,
    which takes one item in each step. -/
theorem layout_of_readAhead {firstLine : Nat} {closed : Closed (List DictionaryItem)}
    {lines : List Text} (remaining : document.contentsFrom index = lines) (deep : 0 < depth)
    (ended : readAhead firstLine lines index depth = .ok closed) :
    Layout document index depth closed := by
  fun_induction readAhead firstLine lines index depth generalizing closed with
  | case1 => cases ended
  | case2 content rest index depth field found array count closes hypothesis =>
    obtain ⟨here, rfl⟩ := Document.contentAt?_of_contentsFrom remaining
    obtain ⟨later, continued, rfl⟩ := Checked.map_eq_ok_iff.mp ended
    have fieldHere := (Document.fieldAt?_of_contentAt? here).trans found
    have noField := ((Document.nextIsNoField_iff document (index + 1)).mp array.2).2
    have stands := ArrayField.standsAt_withLines fieldHere array.1 noField closes
    have behind := hypothesis (Document.contentsFrom_add _ _ _) deep continued
    refine layout_cons_iff.mpr ⟨stands, deep, ?_⟩
    have next : index + (count + 2) = index + 1 + (count + 1) := by omega
    rw [depthChange_arrayField, Int.add_zero, lineCount_arrayField,
      ArrayField.innerCount_of_closes closes, next]
    exact behind
  | case3 => cases ended
  | case4 content rest index depth field found noArray hypothesis =>
    obtain ⟨here, rfl⟩ := Document.contentAt?_of_contentsFrom remaining
    obtain ⟨later, continued, rfl⟩ := Checked.map_eq_ok_iff.mp ended
    have behind := hypothesis rfl deep continued
    refine layout_cons_iff.mpr ⟨⟨(Document.fieldAt?_of_contentAt? here).trans found, ?_⟩, deep, ?_⟩
    · intro opens noField
      obtain ⟨before, present⟩ := behind.closingLine_bounds
      have next : index + 1 < document.lineCount := by omega
      exact noArray ⟨opens, (Document.nextIsNoField_iff document (index + 1)).mpr ⟨next, noField⟩⟩
    · rw [depthChange_field, Int.add_zero]
      exact behind
  | case5 content rest index depth found closes =>
    obtain ⟨here, _⟩ := Document.contentAt?_of_contentsFrom remaining
    have noField := (Document.fieldAt?_of_contentAt? here).trans found
    cases ended
    exact layout_nil_iff.mpr ⟨rfl, deep, noField, content, here, closes⟩
  | case6 content rest index depth found deeper hypothesis =>
    obtain ⟨here, rfl⟩ := Document.contentAt?_of_contentsFrom remaining
    obtain ⟨later, continued, rfl⟩ := Checked.map_eq_ok_iff.mp ended
    have behind := hypothesis rfl (by omega) continued
    have noField := (Document.fieldAt?_of_contentAt? here).trans found
    refine layout_cons_iff.mpr ⟨⟨noField, by rw [here]; rfl⟩, deep, ?_⟩
    rw [depthChange_plainText]
    exact behind

/-- A dictionary that is read has a layout that begins at its first line. -/
theorem layout_of_read {firstLine : Nat} {closed : Closed (List DictionaryItem)}
    (ended : read (document.contentsFrom firstLine) firstLine = .ok closed) :
    Layout document firstLine 1 closed := by
  rw [read, run_eq_readAhead] at ended
  exact layout_of_readAhead rfl Int.one_pos ended

/-- What is laid out on the lines is read. The induction is on the items. -/
theorem readAhead_of_layout (firstLine : Nat) {items : List DictionaryItem}
    (layout : Layout document index depth ⟨items, closingLine⟩) :
    readAhead firstLine (document.contentsFrom index) index depth = .ok ⟨items, closingLine⟩ := by
  induction items generalizing index depth with
  | nil =>
    obtain ⟨rfl, _, noField, content, here, closes⟩ := layout_nil_iff.mp layout
    rw [Document.fieldAt?_of_contentAt? here] at noField
    rw [Document.contentsFrom_of_contentAt? here, readAhead, noField]
    simp only [if_pos closes]
  | cons item items hypothesis =>
    obtain ⟨stands, deep, later⟩ := layout_cons_iff.mp layout
    have behind := hypothesis later
    cases item with
    | field simple =>
      obtain ⟨found, followed⟩ := stands
      obtain ⟨content, here, read⟩ := Option.bind_eq_some_iff.mp found
      rw [depthChange_field, Int.add_zero] at behind
      have noArray : ¬ (simple.value = [Bracket.square.opening] ∧
          nextIsNoField (document.contentsFrom (index + 1)) (index + 1) = true) := by
        rintro ⟨opens, next⟩
        exact followed opens ((Document.nextIsNoField_iff document (index + 1)).mp next).2
      rw [Document.contentsFrom_of_contentAt? here, readAhead, read]
      simp only [if_neg noArray]
      exact Checked.map_eq_ok_iff.mpr ⟨_, behind, rfl⟩
    | arrayField array =>
      obtain ⟨field, found, opens, closes, made⟩ := stands.eq_withLines
      obtain ⟨content, here, read⟩ := Option.bind_eq_some_iff.mp found
      obtain ⟨last, ended, _⟩ := stands.closed
      have present := Document.lt_lineCount_of_contentAt? ended
      have next : nextIsNoField (document.contentsFrom (index + 1)) (index + 1) = true :=
        (Document.nextIsNoField_iff document (index + 1)).mpr ⟨by omega, stands.noField⟩
      have same : index + (array.innerCount + 2) = index + 1 + (array.innerCount + 1) := by omega
      rw [depthChange_arrayField, Int.add_zero, lineCount_arrayField, same,
        Document.contentsFrom_add] at behind
      rw [Document.contentsFrom_of_contentAt? here, readAhead, read]
      simp only [opens, next, and_self, if_true, closes, made]
      exact Checked.map_eq_ok_iff.mpr ⟨_, behind, rfl⟩
    | plainText plain =>
      obtain ⟨noField, made⟩ := stands
      obtain ⟨content, here, rfl⟩ := Option.map_eq_some_iff.mp made
      rw [Document.fieldAt?_of_contentAt? here] at noField
      have deeper := later.deep
      rw [depthChange_plainText] at behind deeper
      have unclosed : ¬ depth + braceBalance content ≤ 0 := Int.not_le.mpr deeper
      rw [Document.contentsFrom_of_contentAt? here, readAhead, noField]
      simp only [if_neg unclosed]
      exact Checked.map_eq_ok_iff.mpr ⟨_, behind, rfl⟩

/-- A dictionary is read as items and a closing line exactly if these are laid
    out on the lines of the document, one bracket being open at the first. -/
theorem read_eq_ok_iff_layout (document : Document) (firstLine : Nat)
    (closed : Closed (List DictionaryItem)) :
    read (document.contentsFrom firstLine) firstLine = .ok closed ↔
      Layout document firstLine 1 closed := by
  rw [read, run_eq_readAhead]
  constructor
  · intro ended
    exact layout_of_readAhead rfl Int.one_pos ended
  · intro layout
    exact readAhead_of_layout firstLine layout

/-- An array field with two elements and a blank line takes five lines. The
    brace among its elements does not count, the one behind it does. -/
example :
    (read ["a: [".toList, ['x', ','], [], ['{'], [']'], ['{', 'b'], ['}'], ['}']] 1).map
        (fun closed => (closed.closingLine, closed.content.map DictionaryItem.lineCount)) =
      .ok (8, [5, 1, 1]) := by
  cbv

end Dictionary

end BlockMarkup
