import BlockMarkup.Range

/-!
# Placing positions in a containing text

`Position.toOuter` moves a position of a text to the containing text and refuses
sums that are no machine words. `placedAt` is the move itself. It is an action
of positions on positions: the start of a text goes to where the text begins,
moves compose, and order is kept. Where the result fits in machine words,
`toOuter` gives it.
-/

namespace BlockMarkup

namespace Position

/-- The place in the containing text of a position in a text that begins at
    `start`, whatever the size of the numbers. -/
def placedAt (p start : Position) : Position :=
  if p.line = 0 then ⟨start.line, start.character + p.character⟩
  else ⟨start.line + p.line, p.character⟩

/-- The origin is placed at the start. -/
@[simp]
theorem origin_placedAt (start : Position) : origin.placedAt start = start := rfl

/-- At the origin every position is where it is. -/
@[simp]
theorem placedAt_origin (p : Position) : p.placedAt origin = p := by
  obtain ⟨line, character⟩ := p
  by_cases first : line = 0
  · simp [placedAt, origin, first]
  · simp [placedAt, origin, first]

/-- After a break only the line changes. -/
@[simp]
theorem placedAt_lineStart (p : Position) (line : Nat) :
    p.placedAt ⟨line, 0⟩ = ⟨line + p.line, p.character⟩ := by
  by_cases first : p.line = 0
  · simp [placedAt, first]
  · simp [placedAt, first]

/-- A start on the first line leaves the lines as they are. -/
@[simp]
theorem placedAt_column_line (p : Position) (character : Nat) :
    (p.placedAt ⟨0, character⟩).line = p.line := by
  by_cases first : p.line = 0
  · simp [placedAt, first]
  · simp [placedAt, first]

/-- On the first line a position is short of the column or placed behind it. -/
theorem short_or_placedAt (p : Position) (character : Nat) :
    (p.line = 0 ∧ p.character < character) ∨ ∃ q : Position, p = q.placedAt ⟨0, character⟩ := by
  obtain ⟨line, column⟩ := p
  by_cases first : line = 0
  · rcases Nat.lt_or_ge column character with short | reached
    · exact Or.inl ⟨first, short⟩
    · refine Or.inr ⟨⟨0, column - character⟩, ?_⟩
      simp only [placedAt, first, if_true, mk.injEq, true_and]
      omega
  · exact Or.inr ⟨⟨line, column⟩, by simp [placedAt, first]⟩

/-- A text inside a text inside a text. -/
theorem placedAt_placedAt (p inner outer : Position) :
    (p.placedAt inner).placedAt outer = p.placedAt (inner.placedAt outer) := by
  by_cases first : p.line = 0
  · by_cases innerFirst : inner.line = 0
    · simp [placedAt, first, innerFirst, Nat.add_assoc]
    · simp [placedAt, first, innerFirst]
  · have later : inner.line + p.line ≠ 0 := by omega
    by_cases innerFirst : inner.line = 0
    · simp [placedAt, first, innerFirst]
    · simp [placedAt, first, innerFirst, Nat.add_assoc]

/-- Placing a text elsewhere keeps the order of its positions. -/
theorem placedAt_le_placedAt {p q : Position} (start : Position) (ordered : p ≤ q) :
    p.placedAt start ≤ q.placedAt start := by
  rw [le_iff] at ordered ⊢
  by_cases first : p.line = 0
  · by_cases second : q.line = 0
    · simp only [placedAt, first, second, if_true, true_and]
      omega
    · simp only [placedAt, first, second, if_true, if_false]
      omega
  · have second : q.line ≠ 0 := by omega
    simp only [placedAt, first, second, if_false]
    omega

/-- Placing loses no order. -/
theorem le_of_placedAt_le_placedAt {p q start : Position}
    (ordered : p.placedAt start ≤ q.placedAt start) : p ≤ q := by
  rw [le_iff] at ordered ⊢
  by_cases first : p.line = 0
  · by_cases second : q.line = 0
    · simp only [placedAt, first, second, if_true, true_and] at ordered ⊢
      omega
    · omega
  · by_cases second : q.line = 0
    · simp only [placedAt, first, second, if_true, if_false] at ordered
      omega
    · simp only [placedAt, first, second, if_false] at ordered
      omega

/-- No position is before the origin. -/
theorem origin_le (p : Position) : origin ≤ p := by
  rw [le_iff]
  simp only [origin]
  omega

/-- A move to a position of machine words is not refused. -/
theorem toOuter_of_lt {p start : Position} (line : (p.placedAt start).line < wordLimit)
    (character : (p.placedAt start).character < wordLimit) :
    p.toOuter start = .ok (p.placedAt start) := by
  unfold toOuter addWord
  by_cases first : p.line = 0
  · simp only [placedAt, first, if_true] at character ⊢
    rw [if_pos character]
    rfl
  · simp only [placedAt, first, if_false] at line ⊢
    rw [if_pos line]
    rfl

end Position

end BlockMarkup
