import BlockMarkup.Proofs.File.Scanning
import BlockMarkup.Proofs.Grammar.Pieces

/-!
# Reported strings are what their ranges cover

A block reports strings and ranges side by side: its name, the keys and values
of its fields, the elements of array fields, entries, and lines that fit no
form. Strings and ranges are computed apart from each other, and `MatchesSource`
says for each kind of item that they belong together.

All of them lie on one line of the document, except for the content of a text
block, which is taken from the content range itself. So it is enough that they
are pieces of their lines.
-/

namespace BlockMarkup

/-! ## What is to be shown -/

/-- A text is what its range covers. -/
def PlainText.MatchesSource (document : Document) (plain : PlainText) : Prop :=
  document.textIn plain.range = plain.text

/-- Key and value are what their ranges cover, and the key ends before the value
    starts. -/
structure SimpleField.MatchesSource (document : Document) (field : SimpleField) : Prop where
  key : document.textIn field.keyRange = field.key
  value : document.textIn field.valueRange = field.value
  ordered : field.keyRange.stop < field.valueRange.start

/-- The key, every element and every blank line are what their ranges cover. -/
structure ArrayField.MatchesSource (document : Document) (field : ArrayField) : Prop where
  key : document.textIn field.keyRange = field.key
  values : ∀ value ∈ field.values, document.textIn value.range = value.content
  plainText : ∀ plain ∈ field.plainText, plain.MatchesSource document

/-- Whether the texts of an item of a dictionary stand in the document at their ranges. -/
def DictionaryItem.MatchesSource (document : Document) : DictionaryItem → Prop
  | .field simple => simple.MatchesSource document
  | .arrayField array => array.MatchesSource document
  | .plainText plain => plain.MatchesSource document

/-- Whether the text of an item of an array stands in the document at its range. -/
def ArrayItem.MatchesSource (document : Document) : ArrayItem → Prop
  | .entry found => document.textIn found.entryRange = found.entry
  | .plainText plain => plain.MatchesSource document

/-- The items match, or the text is what the content range covers. -/
def BlockContent.MatchesSource (document : Document) (contentRange : Range) : BlockContent → Prop
  | .text content => content = document.textIn contentRange
  | .dictionary items => ∀ item ∈ items, item.MatchesSource document
  | .array items => ∀ item ∈ items, item.MatchesSource document

/-- Everything that a block reports is what the ranges beside it cover. -/
structure Block.MatchesSource (document : Document) (block : Block) : Prop where
  name : document.textIn block.nameRange = block.name
  content : block.content.MatchesSource document block.contentRange

/-! ## Single lines -/

section Line

variable {document : Document} {index : Nat} {line : Line}
  (present : document.lines[index]? = some line)

include present

/-- A plain line stands where it was read. -/
theorem PlainText.matchesSource_ofLine :
    (PlainText.ofLine line.content index).MatchesSource document :=
  (isPiece_ofLine line.content index).textIn present

/-- The name of a block stands where it was read. -/
theorem BlockHeader.textIn_nameRange {header : BlockHeader}
    (found : ofLine? line.content index = some header) :
    document.textIn header.nameRange = header.name :=
  (isPiece_name found).textIn present

/-- So do the key and the value of a field. -/
theorem SimpleField.matchesSource_ofLine? {field : SimpleField}
    (found : ofLine? line.content index = some field) : field.MatchesSource document where
  key := (isPiece_key found).textIn present
  value := (isPiece_value found).textIn present
  ordered := keyRange_lt_valueRange found

/-- So does an item of an array, in either place. -/
theorem ArrayBlock.matchesSource_item (place : EntryPlace) :
    (item place line.content index).MatchesSource document := by
  unfold item
  split
  · next entry found => exact (Entry.isPiece_entry found).textIn present
  · exact PlainText.matchesSource_ofLine present

/-- Adding a line to an array field adds one string that matches. -/
theorem ArrayField.matchesSource_addLine {field : ArrayField}
    (matched : field.MatchesSource document) :
    (field.addLine line.content index).MatchesSource document := by
  unfold addLine
  split
  · refine ⟨matched.key, matched.values, ?_⟩
    intro plain member
    rcases List.mem_append.mp member with earlier | added
    · exact matched.plainText plain earlier
    · cases List.mem_singleton.mp added
      exact PlainText.matchesSource_ofLine present
  · refine ⟨matched.key, ?_, matched.plainText⟩
    intro value member
    rcases List.mem_append.mp member with earlier | added
    · exact matched.values value earlier
    · cases List.mem_singleton.mp added
      exact (isPiece_element line.content index).textIn present

end Line

/-! ## Dictionaries -/

namespace Dictionary

variable {document : Document}

/-- What the lines so far have left open matches. -/
def State.MatchesSource (document : Document) : State → Prop
  | .idle => True
  | .held field => field.MatchesSource document
  | .collecting field => field.MatchesSource document

/-- The items that a line adds match, and so does what it leaves open. -/
def Step.MatchesSource (document : Document) : Step → Prop
  | .closes => True
  | .goesOn items next _ =>
    (∀ item ∈ items, item.MatchesSource document) ∧ next.MatchesSource document

/-- Wherever a field goes, its texts stand in the document. -/
theorem matchesSource_place {field : SimpleField} (matched : field.MatchesSource document) :
    (∀ item ∈ (place field).1, item.MatchesSource document) ∧
      (place field).2.MatchesSource document := by
  unfold place
  split
  · exact ⟨by simp, matched⟩
  · refine ⟨?_, trivial⟩
    intro item member
    cases List.mem_singleton.mp member
    exact matched

section Line

variable {index : Nat} {line : Line} (present : document.lines[index]? = some line) (depth : Int)

include present

/-- An array field keeps its texts when it collects a line or ends with it. -/
theorem matchesSource_collect {field : ArrayField} (matched : field.MatchesSource document) :
    (collect field line.content index depth).MatchesSource document := by
  unfold collect
  split
  · refine ⟨?_, trivial⟩
    intro item member
    cases List.mem_singleton.mp member
    exact matched
  · exact ⟨by simp, ArrayField.matchesSource_addLine present matched⟩

/-- A line keeps what is open matching, and every item that it adds matches. A
    field that turns out to be the key of an array hands its key on. -/
theorem matchesSource_step {state : State} (matched : state.MatchesSource document) :
    (step state depth line.content index).MatchesSource document := by
  unfold step
  split
  · exact matchesSource_collect present depth matched
  · next held _ =>
    have keyed : (ArrayField.ofKey held).MatchesSource document :=
      ⟨matched.key, by simp [ArrayField.ofKey], by simp [ArrayField.ofKey]⟩
    exact matchesSource_collect present depth keyed
  · next held field found =>
    have placed := matchesSource_place (SimpleField.matchesSource_ofLine? present found)
    refine ⟨?_, placed.2⟩
    intro item member
    rcases List.mem_cons.mp member with rfl | added
    · exact matched
    · exact placed.1 item added
  · next field found =>
    exact matchesSource_place (SimpleField.matchesSource_ofLine? present found)
  · simp only
    split
    · trivial
    · refine ⟨?_, trivial⟩
      intro item member
      cases List.mem_singleton.mp member
      exact PlainText.matchesSource_ofLine present

end Line

/-- Every item of a dictionary matches, whatever was open where the lines
    begin. -/
theorem matchesSource_run {firstLine index : Nat} {lines : List Text} {state : State} {depth : Int}
    {closed : Closed (List DictionaryItem)} (remaining : lines = document.contentsFrom index)
    (matched : state.MatchesSource document)
    (ended : run firstLine lines index state depth = .ok closed) :
    ∀ item ∈ closed.content, item.MatchesSource document := by
  induction lines generalizing index state depth closed with
  | nil => cases ended
  | cons content rest hypothesis =>
    obtain ⟨⟨line, present, rfl⟩, restEq⟩ := Document.contentsFrom_eq_cons remaining.symm
    have stepped := matchesSource_step present depth matched
    simp only [run] at ended
    split at ended
    · cases ended
      simp
    · next items next deeper effect =>
      rw [effect] at stepped
      obtain ⟨later, continued, rfl⟩ := Checked.map_eq_ok_iff.mp ended
      intro item member
      rcases List.mem_append.mp member with added | after
      · exact stepped.1 item added
      · exact hypothesis restEq stepped.2 continued item after

end Dictionary

/-! ## Arrays -/

/-- Every item of an array matches; its lines are the first of the remaining
    ones. -/
theorem ArrayBlock.matchesSource_items {document : Document} {lines after : List Text} {index : Nat}
    (remaining : document.contentsFrom index = lines ++ after) :
    ∀ found ∈ items lines index, found.MatchesSource document := by
  fun_induction items lines index with
  | case1 index => simp
  | case2 content index =>
    obtain ⟨⟨line, present, rfl⟩, _⟩ := Document.contentsFrom_eq_cons remaining
    intro found member
    cases List.mem_singleton.mp member
    exact matchesSource_item present .last
  | case3 content rest index _ hypothesis =>
    obtain ⟨⟨line, present, rfl⟩, restEq⟩ := Document.contentsFrom_eq_cons remaining
    intro found member
    rcases List.mem_cons.mp member with rfl | later
    · exact matchesSource_item present .inner
    · exact hypothesis restEq.symm found later

/-! ## Blocks -/

/-- The content of a block matches, read by whichever reader its kind asks for.
    A text is taken from the same range that the block reports. -/
theorem Block.matchesSource_of_readContent {document : Document} {firstLine : Nat}
    {kind : ContentKind} {closed : Closed BlockContent} {range : Range}
    (ended : readContent document firstLine kind = .ok (.ok closed))
    (covered : document.contentRange firstLine closed.closingLine = .ok range) :
    closed.content.MatchesSource document range := by
  rcases readContent_eq_ok ended with
    ⟨_, inner, rfl, read⟩ | ⟨_, inner, rfl, read⟩ | ⟨_, inner, rfl, read⟩
  · obtain ⟨count, _, rfl⟩ := ArrayBlock.read_eq_ok read
    exact ArrayBlock.matchesSource_items (List.take_append_drop count _).symm
  · have nothingOpen : Dictionary.State.idle.MatchesSource document := trivial
    exact Dictionary.matchesSource_run rfl nothingOpen read
  · obtain ⟨count, textRange, _, textCovered, rfl⟩ := TextBlock.read_eq_ok read
    have sameRange : textRange = range := Except.ok.inj (textCovered.symm.trans covered)
    rw [← sameRange]
    rfl

namespace Document

/-- Every string that a block of a file reports is what the range beside it
    covers, whatever the settings and whatever reads scripts. -/
theorem matchesSource_of_mem_blocks (reading : Reading) (document : Document) (file : ParsedFile)
    (parsed : document.parse reading = .ok file) :
    ∀ block ∈ file.blocks, block.MatchesSource document := by
  intro block member
  obtain ⟨line, header, present, found, reads⟩ := opensBlock_of_mem parsed member
  have named := BlockHeader.textIn_nameRange present found
  rw [← reads.name, ← reads.nameRange] at named
  exact ⟨named, Block.matchesSource_of_readContent reads.content reads.contentRange⟩

/-- A disabled field of two-byte characters, a field whose value is blank, an
    array field with a lone comma and a blank line, entries with nothing but a
    mark, and a text. -/
theorem matchesSource_of_mem_blocks_three_kinds :
    ∃ (document : Document) (file : ParsedFile),
      document.text = ("m \x7b\r\n ~é : ü \n b:\u3000\n c: [\n x ,\n \n ,\n ]\n\x7d\n" ++
        "a [\n ~,\n ~é\n]\nt \x7b\n é\r\n\x7d").toList ∧
      document.parse ⟨⟨["t".toList], []⟩, fun _ => none⟩ = .ok file ∧
      file.blocks.map Block.name = ["m".toList, "a".toList, "t".toList] ∧
      ∀ block ∈ file.blocks, block.MatchesSource document := by
  obtain ⟨file, parsed, names⟩ : ∃ file : ParsedFile,
      (ofText ("m \x7b\r\n ~é : ü \n b:\u3000\n c: [\n x ,\n \n ,\n ]\n\x7d\n" ++
        "a [\n ~,\n ~é\n]\nt \x7b\n é\r\n\x7d").toList).parse
          ⟨⟨["t".toList], []⟩, fun _ => none⟩ = .ok file ∧
        file.blocks.map Block.name = ["m".toList, "a".toList, "t".toList] := ⟨_, rfl, rfl⟩
  exact ⟨_, file, rfl, parsed, names, matchesSource_of_mem_blocks _ _ file parsed⟩

end Document

end BlockMarkup
