import BlockMarkup.Text.Blank

/-!
# Cutting a text at its boundaries

A boundary of a text is the size of a part that the text begins with. Offsets
that are given as such sizes pass through `floorBoundary`, `takeSize`,
`dropSize` and `between` without being rounded, so a cut at a boundary is an
equation between texts: `between` takes out the middle of a text that is given
in three parts, and `slice?` accepts exactly the spans that have such a middle.
Trimming parts a text too: what is taken off stands before and after the rest.
-/

namespace BlockMarkup.Text

/-- Every character has at least one byte, so an offset of zero keeps nothing. -/
@[simp]
theorem floorBoundary_zero (text : Text) : floorBoundary text 0 = 0 := by
  cases text with
  | nil => rfl
  | cons c rest =>
    have positive : 0 < c.utf8Size := c.utf8Size_pos
    simp only [floorBoundary]
    split
    · omega
    · rfl

/-- Nothing is taken with no bytes. -/
@[simp]
theorem takeSize_zero (text : Text) : takeSize 0 text = [] := by
  cases text with
  | nil => rfl
  | cons c rest =>
    have positive : 0 < c.utf8Size := c.utf8Size_pos
    simp only [takeSize]
    split
    · omega
    · rfl

/-- Nothing is dropped with no bytes. -/
@[simp]
theorem dropSize_zero (text : Text) : dropSize 0 text = text := by
  simpa using takeSize_append_dropSize 0 text

/-- Only the empty text has no bytes. -/
theorem size_eq_zero_iff (text : Text) : size text = 0 ↔ text = [] := by
  cases text with
  | nil => simp
  | cons c rest =>
    have positive : 0 < c.utf8Size := c.utf8Size_pos
    simp only [size_cons, reduceCtorEq, iff_false]
    omega

/-- A known part in front is kept whole and rounding happens behind it. -/
theorem floorBoundary_size_add (front back : Text) (offset : Nat) :
    floorBoundary (front ++ back) (size front + offset) =
      size front + floorBoundary back offset := by
  induction front with
  | nil => simp
  | cons c rest hypothesis =>
    have fits : c.utf8Size ≤ c.utf8Size + size rest + offset := by omega
    have remaining : c.utf8Size + size rest + offset - c.utf8Size = size rest + offset := by omega
    simp only [List.cons_append, floorBoundary, size_cons, if_pos fits, remaining, hypothesis]
    omega

/-- Taking more than a text in front takes that and the rest behind it. -/
theorem takeSize_size_add (front back : Text) (limit : Nat) :
    takeSize (size front + limit) (front ++ back) = front ++ takeSize limit back := by
  induction front with
  | nil => simp
  | cons c rest hypothesis =>
    have fits : c.utf8Size ≤ c.utf8Size + size rest + limit := by omega
    have remaining : c.utf8Size + size rest + limit - c.utf8Size = size rest + limit := by omega
    simp only [List.cons_append, takeSize, size_cons, if_pos fits, remaining, hypothesis]

/-- Dropping more than a text in front drops that and the rest behind it. -/
theorem dropSize_size_add (front back : Text) (limit : Nat) :
    dropSize (size front + limit) (front ++ back) = dropSize limit back := by
  induction front with
  | nil => simp
  | cons c rest hypothesis =>
    have fits : c.utf8Size ≤ c.utf8Size + size rest + limit := by omega
    have remaining : c.utf8Size + size rest + limit - c.utf8Size = size rest + limit := by omega
    simp only [List.cons_append, dropSize, size_cons, if_pos fits, remaining, hypothesis]

/-- The size of a part in front is a boundary. -/
theorem floorBoundary_size (front back : Text) :
    floorBoundary (front ++ back) (size front) = size front := by
  simpa using floorBoundary_size_add front back 0

/-- The bytes of a text in front take that text. -/
theorem takeSize_size (front back : Text) : takeSize (size front) (front ++ back) = front := by
  simpa using takeSize_size_add front back 0

/-- They leave what is behind it. -/
theorem dropSize_size (front back : Text) : dropSize (size front) (front ++ back) = back := by
  simpa using dropSize_size_add front back 0

/-- No boundary lies beyond the end. -/
theorem floorBoundary_le_size (text : Text) (offset : Nat) :
    floorBoundary text offset ≤ size text := by
  have whole := congrArg size (takeSize_append_dropSize offset text)
  rw [size_append, size_takeSize] at whole
  omega

/-- A later offset has no earlier boundary below it. -/
theorem floorBoundary_le_floorBoundary (text : Text) {first last : Nat} (ordered : first ≤ last) :
    floorBoundary text first ≤ floorBoundary text last := by
  induction text generalizing first last with
  | nil => exact Nat.le_refl _
  | cons c rest hypothesis =>
    simp only [floorBoundary]
    by_cases fits : c.utf8Size ≤ first
    · have later := hypothesis (Nat.sub_le_sub_right ordered c.utf8Size)
      rw [if_pos fits, if_pos (Nat.le_trans fits ordered)]
      omega
    · rw [if_neg fits]
      exact Nat.zero_le _

/-- The whole of a text is a boundary of it. -/
theorem floorBoundary_self (text : Text) : floorBoundary text (size text) = size text := by
  simpa using floorBoundary_size text []

/-- Cutting out the middle of a text that is given in three parts. -/
theorem between_append (front middle back : Text) :
    between (front ++ (middle ++ back)) (size front) (size front + size middle) = middle := by
  have length : size front + size middle - size front = size middle := by omega
  rw [between, length, dropSize_size, takeSize_size]

/-- An offset is a boundary exactly when the text can be parted there. -/
theorem isBoundary_iff (text : Text) (offset : Nat) :
    isBoundary text offset = true ↔ ∃ front back, text = front ++ back ∧ size front = offset := by
  simp only [isBoundary, beq_iff_eq]
  constructor
  · intro fixed
    refine ⟨takeSize offset text, dropSize offset text, ?_, ?_⟩
    · exact (takeSize_append_dropSize offset text).symm
    · rw [size_takeSize, fixed]
  · rintro ⟨front, back, rfl, rfl⟩
    exact floorBoundary_size front back

/-- A later cut of a text lies in what an earlier cut leaves. -/
theorem parts_nested {front back front' back' : Text} (same : front ++ back = front' ++ back')
    (ordered : size front ≤ size front') :
    ∃ middle, front' = front ++ middle ∧ back = middle ++ back' := by
  rcases List.append_eq_append_iff.mp same with ⟨middle, rfl, rfl⟩ | ⟨middle, rfl, rfl⟩
  · exact ⟨middle, rfl, rfl⟩
  · have empty : middle = [] := by
      rw [← size_eq_zero_iff]
      simp only [size_append] at ordered
      omega
    subst empty
    exact ⟨[], by simp, by simp⟩

/-- A text is parted in one way only at an offset. -/
theorem parts_unique {front back front' back' : Text} (same : front ++ back = front' ++ back')
    (sizes : size front = size front') : front = front' ∧ back = back' := by
  obtain ⟨middle, rfl, rfl⟩ := parts_nested same (Nat.le_of_eq sizes)
  have empty : middle = [] := by
    rw [← size_eq_zero_iff]
    rw [size_append] at sizes
    omega
  simp [empty]

/-- Between an offset and itself there is nothing. -/
@[simp]
theorem between_self (text : Text) (offset : Nat) : between text offset offset = [] := by
  simp [between]

/-- Between its ends there is the whole text. -/
theorem between_zero_size (text : Text) : between text 0 (size text) = text := by
  simpa using between_append [] text []

/-- Two cuts that meet at a boundary are one cut. -/
theorem between_append_between {text : Text} {first second third : Nat}
    (atFirst : isBoundary text first = true) (atSecond : isBoundary text second = true)
    (atThird : isBoundary text third = true) (ordered : first ≤ second)
    (ordered' : second ≤ third) :
    between text first second ++ between text second third = between text first third := by
  obtain ⟨front, rest, rfl, rfl⟩ := (isBoundary_iff _ _).mp atFirst
  obtain ⟨front', rest', same, rfl⟩ := (isBoundary_iff _ _).mp atSecond
  obtain ⟨front'', back, same', rfl⟩ := (isBoundary_iff _ _).mp atThird
  obtain ⟨before, rfl, rfl⟩ := parts_nested same ordered
  obtain ⟨after, rfl, rfl⟩ := parts_nested (same.symm.trans same') ordered'
  have early := between_append front before (after ++ back)
  have late := between_append (front ++ before) after back
  have both := between_append front (before ++ after) back
  simp only [size_append, List.append_assoc, Nat.add_assoc] at early late both ⊢
  rw [early, late, both]

/-- The strict cut succeeds exactly on the spans of a middle part, and gives
    that part. -/
theorem slice?_eq_some_iff (text middle : Text) (start stop : Nat) :
    slice? text start stop = some middle ↔
      ∃ front back, text = front ++ (middle ++ back) ∧ size front = start ∧
        stop = start + size middle := by
  constructor
  · intro found
    unfold slice? at found
    split at found
    · next accepted =>
      simp only [Bool.and_eq_true, decide_eq_true_eq, isBoundary_iff] at accepted
      obtain ⟨⟨ordered, front, back, rfl, rfl⟩, front', back', same, rfl⟩ := accepted
      obtain ⟨between', rfl, rfl⟩ := parts_nested same ordered
      rw [size_append, between_append] at found
      cases found
      exact ⟨front, back', rfl, rfl, size_append front middle⟩
    · cases found
  · rintro ⟨front, back, rfl, rfl, rfl⟩
    have first : isBoundary (front ++ (middle ++ back)) (size front) = true :=
      (isBoundary_iff _ _).mpr ⟨front, middle ++ back, rfl, rfl⟩
    have last : isBoundary (front ++ (middle ++ back)) (size front + size middle) = true :=
      (isBoundary_iff _ _).mpr ⟨front ++ middle, back, by simp, by simp⟩
    simp [slice?, first, last, between_append]

/-- What is trimmed off at the end stands at the end and is blank. -/
theorem trimEnd_append_blanks (text : Text) :
    ∃ tail, text = trimEnd text ++ tail ∧ allBlank tail = true := by
  refine ⟨(text.reverse.takeWhile isBlank).reverse, ?_, ?_⟩
  · rw [trimEnd, ← List.reverse_append, List.takeWhile_append_dropWhile, List.reverse_reverse]
  · rw [allBlank, List.all_reverse, List.all_takeWhile]

/-- What is trimmed at the end stands behind the rest. -/
theorem trimEnd_append (text : Text) : ∃ tail, text = trimEnd text ++ tail := by
  obtain ⟨tail, parts, _⟩ := trimEnd_append_blanks text
  exact ⟨tail, parts⟩

/-- A trimmed text stands between what was trimmed off. -/
theorem leadingBlanks_append_trim_append_blanks (text : Text) :
    ∃ tail, text = leadingBlanks text ++ (trim text ++ tail) ∧ allBlank tail = true := by
  obtain ⟨tail, rest, blank⟩ := trimEnd_append_blanks (trimStart text)
  refine ⟨tail, ?_, blank⟩
  rw [trim, ← rest, leadingBlanks_append_trimStart]

/-- A text is its leading blanks, what trimming leaves, and something behind it. -/
theorem leadingBlanks_append_trim (text : Text) :
    ∃ tail, text = leadingBlanks text ++ (trim text ++ tail) := by
  obtain ⟨tail, parts, _⟩ := leadingBlanks_append_trim_append_blanks text
  exact ⟨tail, parts⟩

/-- What is left when the leading blanks are off begins with another character. -/
theorem trimStart_eq_nil_or_cons (text : Text) :
    trimStart text = [] ∨ ∃ c rest, trimStart text = c :: rest ∧ isBlank c = false := by
  have first := List.head?_dropWhile_not isBlank text
  rw [← trimStart] at first
  cases left : trimStart text with
  | nil => exact Or.inl rfl
  | cons c rest =>
    rw [left] at first
    exact Or.inr ⟨c, rest, rfl, first⟩

/-- A trimmed start is trimmed no further. -/
theorem trimStart_trimStart (text : Text) : trimStart (trimStart text) = trimStart text := by
  rcases trimStart_eq_nil_or_cons text with empty | ⟨c, rest, left, filled⟩
  · rw [empty]
    rfl
  · rw [left, trimStart, List.dropWhile_cons_of_neg (by simp [filled])]

/-- Nor is a trimmed end. -/
theorem trimEnd_trimEnd (text : Text) : trimEnd (trimEnd text) = trimEnd text := by
  have reversed := trimStart_trimStart text.reverse
  simp only [trimStart] at reversed
  simp only [trimEnd, List.reverse_reverse, reversed]

/-- Blanks at the end are taken off behind a character that is none. -/
theorem trimEnd_cons {c : Char} (filled : isBlank c = false) (rest : Text) :
    trimEnd (c :: rest) = c :: trimEnd rest := by
  have kept : [c].dropWhile isBlank = [c] := List.dropWhile_cons_of_neg (by simp [filled])
  rw [trimEnd, trimEnd, List.reverse_cons, List.dropWhile_append, kept]
  split
  · next empty => rw [List.isEmpty_iff.mp empty]; rfl
  · rw [List.reverse_append]; rfl

/-- Trimming a second time changes nothing. -/
theorem trim_trim (text : Text) : trim (trim text) = trim text := by
  have started : trimStart (trim text) = trim text := by
    rw [trim]
    rcases trimStart_eq_nil_or_cons text with empty | ⟨c, rest, left, filled⟩
    · rw [empty]
      rfl
    · rw [left, trimEnd_cons filled, trimStart, List.dropWhile_cons_of_neg (by simp [filled])]
  rw [trim, started]
  exact trimEnd_trimEnd (trimStart text)

end BlockMarkup.Text
