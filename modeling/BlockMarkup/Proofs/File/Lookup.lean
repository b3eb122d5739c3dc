import BlockMarkup.Proofs.File.Headers
import BlockMarkup.Proofs.File.References
import BlockMarkup.Proofs.Position.Containment

/-!
# Finding the block at a position

A block is looked up by a position in its range or at the end of it. The ranges
of the blocks of a file share no line, so at most one block is found, and every
position in the content of a block leads to that block.
-/

namespace BlockMarkup

/-- The lines of the content are lines of the block. -/
theorem Block.Reads.containsRange_contentRange {reading : Reading} {document : Document}
    {header : BlockHeader} {block : Block} (reads : Block.Reads reading document header block) :
    block.range.containsRange block.contentRange = true := by
  have after := (Block.readContent_closingLine reads.content).1
  have covered := reads.contentRange
  rw [Document.contentRange_eq] at covered
  rw [Range.containsRange_iff, reads.range, ← Except.ok.inj covered, Position.le_iff,
    Position.le_iff]
  simp only at after ⊢
  split
  · exact ⟨Or.inl after, Or.inr ⟨rfl, Nat.zero_le _⟩⟩
  · simp only
    omega

/-- A position in the range of a block is on a line of the block. -/
theorem Block.hasLine_of_containsInclusive {block : Block} {p : Position}
    (inside : block.range.containsInclusive p = true) : block.HasLine p.line := by
  obtain ⟨after, before⟩ := Range.containsInclusive_iff.mp inside
  rw [Position.le_iff] at after before
  constructor
  · rw [headerLine]
    omega
  · rw [closingLine]
    omega

namespace ParsedFile

variable {file : ParsedFile}
  (apart : file.blocks.Pairwise fun earlier later => earlier.closingLine < later.headerLine)

include apart

/-- Blocks that follow one another have no line in common. -/
theorem eq_of_hasLine {block other : Block} {index : Nat} (member : block ∈ file.blocks)
    (otherMember : other ∈ file.blocks) (within : block.HasLine index)
    (otherWithin : other.HasLine index) : block = other := by
  refine eq_of_pairwise_excluding (fun block => block.HasLine index) apart ?_ member otherMember
    within otherWithin
  rintro first second before ⟨_, firstEnds⟩ ⟨secondBegins, _⟩
  omega

/-- The block at a position is the one whose range has it. -/
theorem blockAt_eq {block : Block} {p : Position} (member : block ∈ file.blocks)
    (inside : block.range.containsInclusive p = true) : file.blockAt p = some block := by
  unfold blockAt
  cases found : file.blocks.find? fun block => block.range.containsInclusive p with
  | none =>
    have outside := List.find?_eq_none.mp found block member
    exact absurd inside outside
  | some other =>
    have otherMember := List.mem_of_find?_eq_some found
    have otherInside := List.find?_some found
    rw [eq_of_hasLine apart member otherMember (Block.hasLine_of_containsInclusive inside)
      (Block.hasLine_of_containsInclusive otherInside)]

end ParsedFile

end BlockMarkup
