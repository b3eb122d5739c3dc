import BlockMarkup.Proofs.Block.Locality
import BlockMarkup.Proofs.File.Acceptance
import BlockMarkup.Proofs.Guarded.Step

/-!
# Open brackets are signed words

The curly brackets that are open at a line are counted in signed machine words.
A bracket is a byte, so there are never more of them than bytes before the line:
the one of the header stands on an earlier line, and every line adds at most as
many as it has bytes. `Document.OpenAt` is that invariant; the readers of
dictionaries and of texts share it.
-/

namespace BlockMarkup

/-- Every character takes at least one byte. -/
theorem Text.length_le_size (text : Text) : text.length ≤ Text.size text := by
  induction text with
  | nil => exact Nat.le_refl 0
  | cons c rest hypothesis =>
    have positive : 0 < c.utf8Size := c.utf8Size_pos
    rw [List.length_cons, Text.size_cons]
    omega

/-- A line has no more brackets than characters. -/
theorem braceBalance_bounds (content : Text) :
    -(content.length : Int) ≤ braceBalance content ∧ braceBalance content ≤ content.length := by
  have opened : content.count '{' ≤ content.length := List.count_le_length
  have closed : content.count '}' ≤ content.length := List.count_le_length
  unfold braceBalance
  omega

/-- So a line has no more brackets than bytes. -/
theorem braceBalance_le_size (content : Text) :
    -(Text.size content : Int) ≤ braceBalance content ∧ braceBalance content ≤ Text.size content := by
  have bounds := braceBalance_bounds content
  have sized := Text.length_le_size content
  omega

/-- A line makes a dictionary deeper by at most its size. -/
theorem Dictionary.depth_le_of_step {state next : State} {depth deeper : Int} {content : Text}
    {index : Nat} {items : List DictionaryItem}
    (stepped : step state depth content index = .goesOn items next deeper) :
    deeper ≤ depth + Text.size content := by
  have bound := (braceBalance_le_size content).2
  have collected {field : ArrayField}
      (went : collect field content index depth = .goesOn items next deeper) : deeper = depth := by
    unfold collect at went
    split at went <;> cases went <;> rfl
  unfold step at stepped
  split at stepped
  · have same := collected stepped
    omega
  · have same := collected stepped
    omega
  · cases stepped
    omega
  · cases stepped
    omega
  · simp only at stepped
    split at stepped
    · cases stepped
    · cases stepped
      omega

namespace Guarded

/-- Counts one character of a line. -/
def countBrace (balance : Int) (c : Char) : Guarded Int :=
  if c = Bracket.curly.opening then addSigned balance 1
  else if c = Bracket.curly.closing then addSigned balance (-1)
  else return balance

/-- How many more curly brackets a line opens than it closes. -/
def braceBalance (content : Text) : Guarded Int :=
  content.foldlM countBrace 0

/-- A character is counted without a violation while the balance is far from the limits. -/
theorem countBrace_eq {balance : Int} (low : -(signedLimit : Int) < balance)
    (high : balance + 1 < signedLimit) (c : Char) :
    countBrace balance c = .ok (balance + BlockMarkup.braceBalance [c]) := by
  unfold countBrace
  by_cases opens : c = Bracket.curly.opening
  · rw [if_pos opens, opens]
    exact addSigned_eq (by omega) high
  · rw [if_neg opens]
    by_cases closes : c = Bracket.curly.closing
    · rw [if_pos closes, closes]
      exact addSigned_eq (by omega) (by omega)
    · have neither : BlockMarkup.braceBalance [c] = 0 := by
        have notOpening : c ≠ '{' := opens
        have notClosing : c ≠ '}' := closes
        simp [BlockMarkup.braceBalance, notOpening, notClosing]
      rw [if_neg closes, neither, Int.add_zero]
      rfl

/-- The first character adds to the balance of the rest. -/
theorem braceBalance_cons (c : Char) (rest : Text) :
    BlockMarkup.braceBalance (c :: rest) =
      BlockMarkup.braceBalance [c] + BlockMarkup.braceBalance rest := by
  simp only [BlockMarkup.braceBalance, List.count_cons, List.count_nil]
  omega

/-- The count stays as far from the limits as there are characters to come. -/
theorem foldlM_countBrace {content : Text} {balance : Int}
    (low : -(signedLimit : Int) + content.length ≤ balance)
    (high : balance + content.length < signedLimit) :
    content.foldlM countBrace balance = .ok (balance + BlockMarkup.braceBalance content) := by
  induction content generalizing balance with
  | nil =>
    change Except.ok balance = Except.ok (balance + 0)
    rw [Int.add_zero]
  | cons c rest hypothesis =>
    have single := braceBalance_bounds [c]
    rw [List.length_cons] at low high
    rw [List.length_singleton] at single
    rw [List.foldlM_cons, countBrace_eq (by omega) (by omega), ok_bind,
      hypothesis (by omega) (by omega), braceBalance_cons c rest, Int.add_assoc]

/-- The brackets of a line are counted without a violation if it has fewer characters
    than the limit. -/
theorem braceBalance_eq {content : Text} (held : content.length < signedLimit) :
    braceBalance content = .ok (BlockMarkup.braceBalance content) := by
  rw [braceBalance, foldlM_countBrace (by omega) (by omega), Int.zero_add]

end Guarded

namespace Document

variable {document : Document} {index : Nat}

/-- A line begins behind the content of the line before. -/
theorem offsetOf_add_length_le {line : Line} (present : document.lines[index]? = some line) :
    document.offsetOf ⟨index, 0⟩ + line.length ≤ document.offsetOf ⟨index + 1, 0⟩ := by
  have later : (⟨index, line.length⟩ : Position) ≤ ⟨index + 1, 0⟩ := by
    rw [Position.le_iff]
    exact Or.inl (Nat.lt_succ_self index)
  have stop := document.offsetOf_le_offsetOf later
  have sum := Line.offset_eq_start_add (p := ⟨index, line.length⟩) present
  rw [show Text.floorBoundary line.content line.length = line.length from
    Text.floorBoundary_self line.content, document.lines_eq, ← offsetOf_eq, ← offsetOf_eq] at sum
  simp only at sum
  omega

/-- A document has at most one line more than it has bytes. -/
theorem lineCount_le (document : Document) : document.lineCount ≤ document.size + 1 := by
  have positive := document.lineCount_pos
  have last := document.index_add_lengthAt_le (show document.lineCount - 1 < _ by omega)
  omega

/-- Whether a number of open brackets may be that at a line: there are some, and
    no more than bytes before the line. -/
structure OpenAt (document : Document) (index : Nat) (depth : Int) : Prop where
  positive : 0 < depth
  before : index < document.lineCount → depth ≤ document.offsetOf ⟨index, 0⟩

namespace OpenAt

variable {depth : Int}

/-- The bracket of a header stands on a line before. -/
theorem first (document : Document) {firstLine : Nat} (after : 0 < firstLine) :
    document.OpenAt firstLine 1 := by
  refine ⟨by decide, ?_⟩
  intro present
  have later := document.offsetOf_lineStart_lt after present
  omega

variable (opened : document.OpenAt index depth) {line : Line}
  (present : document.lines[index]? = some line)

include opened present

/-- Behind a line the depth is at most the bytes up to there. -/
theorem add_size_le : depth + Text.size line.content ≤ document.offsetOf ⟨index + 1, 0⟩ := by
  have before := opened.before (List.getElem?_eq_some_iff.mp present).1
  have next := offsetOf_add_length_le present
  rw [Line.length] at next
  omega

/-- So it stays below the limit if the document does. -/
theorem add_size_lt (held : document.size < signedLimit) :
    depth + Text.size line.content < signedLimit := by
  have sum := opened.add_size_le present
  have bound := document.offsetOf_le_size ⟨index + 1, 0⟩
  omega

/-- The bound is handed on to the next line. -/
theorem next {deeper : Int} (positive : 0 < deeper)
    (added : deeper ≤ depth + Text.size line.content) : document.OpenAt (index + 1) deeper := by
  refine ⟨positive, ?_⟩
  intro _
  have sum := opened.add_size_le present
  omega

end OpenAt

end Document

end BlockMarkup
