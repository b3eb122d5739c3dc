import BlockMarkup.Grammar.Interpolation

/-!
# Where interpolations stand

The scan of a text passes over characters and counts their bytes. Each name that
it finds stands in the text between braces, and its offset is the size of what
stands before it: `Interpolation.standsIn_of_mem_scanFrom` carries this through
the scan, whatever it passes over.

There are no blanks in an interpolation. So a scan goes over a blank as if it
ended there and began anew behind it.

Nor does an interpolation begin inside another one. So what a scan passes over
hides nothing, and `Interpolation.mem_scan_iff` says that it finds whatever
occurs in the text, wherever the scan went on.
-/

namespace BlockMarkup.Interpolation

/-- Whether an interpolation stands in a text that begins at the byte offset. -/
def StandsIn (found : Interpolation) (offset : Nat) (text : Text) : Prop :=
  ∃ before after, text = before ++ '{' :: '{' :: (found.name ++ '}' :: '}' :: after) ∧
    found.offset = offset + Text.size before + 2

/-- A character in front moves the start of the text. -/
theorem StandsIn.cons {found : Interpolation} {offset : Nat} {c : Char} {rest : Text}
    (behind : found.StandsIn (offset + c.utf8Size) rest) : found.StandsIn offset (c :: rest) := by
  obtain ⟨before, after, rfl, counted⟩ := behind
  refine ⟨c :: before, after, rfl, ?_⟩
  rw [counted, Text.size_cons]
  omega

/-- A name that begins a text is there with its braces. -/
theorem parts_of_nameAtStart? {text name : Text} (found : nameAtStart? text = some name) :
    ∃ after, text = '{' :: '{' :: (name ++ '}' :: '}' :: after) := by
  unfold nameAtStart? at found
  split at found
  · next rest =>
    split at found
    · cases found
    · next after closing _ =>
      cases found
      refine ⟨after, ?_⟩
      rw [← closing, List.takeWhile_append_dropWhile]
    · cases found
  · cases found

/-- Everything that a scan finds stands in the text that was scanned. -/
theorem standsIn_of_mem_scanFrom {offset skip : Nat} {text : Text} {found : Interpolation}
    (member : found ∈ scanFrom offset skip text) : found.StandsIn offset text := by
  fun_induction scanFrom offset skip text with
  | case1 => cases member
  | case2 offset skip c rest hypothesis => exact (hypothesis member).cons
  | case3 offset c rest name opened hypothesis =>
    rcases List.mem_cons.mp member with rfl | later
    · obtain ⟨after, parted⟩ := parts_of_nameAtStart? opened
      exact ⟨[], after, parted, rfl⟩
    · exact (hypothesis later).cons
  | case4 offset c rest _ hypothesis => exact (hypothesis member).cons

/-- Every name that is found in a text stands at its offset, right after an
    opening brace and right before a closing one. -/
theorem parts_of_mem_scan {text : Text} {found : Interpolation} (member : found ∈ scan text) :
    ∃ before after, text = before ++ (found.name ++ after) ∧ found.offset = Text.size before ∧
      before.getLast? = some '{' ∧ after.head? = some '}' := by
  obtain ⟨before, after, parted, counted⟩ := standsIn_of_mem_scanFrom member
  have braces : Text.size ['{', '{'] = 2 := rfl
  refine ⟨before ++ ['{', '{'], '}' :: '}' :: after, ?_, ?_, ?_, rfl⟩
  · rw [parted]
    simp
  · rw [counted, Text.size_append, braces]
    omega
  · simp

/-- A name that is found in a text begins and ends in it. -/
theorem nameSpan_le_size {text : Text} {found : Interpolation} (member : found ∈ scan text) :
    found.nameSpan.start ≤ Text.size text ∧ found.nameSpan.stop ≤ Text.size text := by
  obtain ⟨before, after, parted, counted, _, _⟩ := parts_of_mem_scan member
  have sizes := congrArg Text.size parted
  rw [Text.size_append, Text.size_append] at sizes
  simp only [nameSpan, Span.ofLength]
  omega

/-! ## Blanks -/

/-- No blank is a brace. -/
theorem ne_brace_of_isBlank {c : Char} (blank : isBlank c = true) : c ≠ '{' ∧ c ≠ '}' := by
  constructor
  · rintro rfl
    revert blank
    decide
  · rintro rfl
    revert blank
    decide

/-- An interpolation begins a text exactly if its name in braces does. -/
theorem nameAtStart?_eq_some_iff {text name : Text} :
    nameAtStart? text = some name ↔
      name ≠ [] ∧ (∀ c ∈ name, isVariableChar c = true) ∧
        ∃ after, text = '{' :: '{' :: (name ++ ['}', '}']) ++ after := by
  constructor
  · intro found
    obtain ⟨after, parted⟩ := parts_of_nameAtStart? found
    have named : name ≠ [] ∧ ∀ c ∈ name, isVariableChar c = true := by
      unfold nameAtStart? at found
      split at found
      · next rest =>
        split at found
        · cases found
        · next some =>
          cases found
          exact ⟨some, List.all_eq_true.mp List.all_takeWhile⟩
        · cases found
      · cases found
    exact ⟨named.1, named.2, after, by simpa using parted⟩
  · rintro ⟨some, named, after, rfl⟩
    have taken : (name ++ '}' :: '}' :: after).takeWhile isVariableChar = name := by
      rw [List.takeWhile_append_of_pos named]
      simp [isVariableChar]
    have dropped : (name ++ '}' :: '}' :: after).dropWhile isVariableChar =
        '}' :: '}' :: after := by
      rw [List.dropWhile_append_of_pos named]
      simp [isVariableChar]
    simp [nameAtStart?, taken, dropped]

/-- A blank is no part of an interpolation, so one that begins in front of it
    ends there too. -/
theorem nameAtStart?_append_blank {c : Char} (blank : isBlank c = true) (front back : Text) :
    nameAtStart? (front ++ c :: back) = nameAtStart? front := by
  obtain ⟨notOpening, notClosing⟩ := ne_brace_of_isBlank blank
  apply Option.ext
  intro name
  rw [nameAtStart?_eq_some_iff, nameAtStart?_eq_some_iff]
  constructor
  · rintro ⟨some, named, after, parted⟩
    refine ⟨some, named, ?_⟩
    rcases List.append_eq_append_iff.mp parted with ⟨between, braces, blanks⟩ | ⟨between, rfl, _⟩
    · cases between with
      | nil => exact ⟨[], by rw [braces, List.append_nil, List.append_nil]⟩
      | cons other rest =>
        obtain ⟨rfl, _⟩ := List.cons.inj blanks
        have inside : c ∈ '{' :: '{' :: (name ++ ['}', '}']) := by
          rw [braces]
          simp
        have notNamed : c ∉ name := by
          intro member
          have isVariable := named c member
          simp [isVariableChar, blank] at isVariable
        simp [notOpening, notClosing, notNamed] at inside
    · exact ⟨between, rfl⟩
  · rintro ⟨some, named, after, rfl⟩
    exact ⟨some, named, after ++ c :: back, by rw [List.append_assoc]⟩

/-- A scan goes over a blank as if the text behind it stood alone. What it still
    has to pass over ends in front of the blank. -/
theorem scanFrom_append_blank {c : Char} (blank : isBlank c = true) (back : Text) {front : Text}
    {offset skip : Nat} (within : skip ≤ front.length) :
    scanFrom offset skip (front ++ c :: back) =
      scanFrom offset skip front ++ scanFrom (offset + Text.size front + c.utf8Size) 0 back := by
  induction front generalizing offset skip with
  | nil =>
    obtain rfl : skip = 0 := Nat.le_zero.mp within
    have none : nameAtStart? (c :: back) = none := nameAtStart?_append_blank blank [] back
    change scanFrom offset 0 (c :: back) = scanFrom (offset + c.utf8Size) 0 back
    rw [scanFrom, none]
  | cons first rest hypothesis =>
    have moved : offset + Text.size (first :: rest) = offset + first.utf8Size + Text.size rest := by
      rw [Text.size_cons, Nat.add_assoc]
    rw [moved]
    cases skip with
    | succ skip => exact hypothesis (Nat.le_of_succ_le_succ within)
    | zero =>
      have same := nameAtStart?_append_blank blank (first :: rest) back
      rw [List.cons_append] at same ⊢
      rw [scanFrom, scanFrom, same]
      cases found : nameAtStart? (first :: rest) with
      | none => exact hypothesis (Nat.zero_le _)
      | some name =>
        have inside : name.length + 3 ≤ rest.length := by
          obtain ⟨after, parted⟩ := parts_of_nameAtStart? found
          have lengths := congrArg List.length parted
          simp only [List.length_cons, List.length_append] at lengths
          omega
        simp only [hypothesis inside, List.cons_append]

/-- A text that begins further on is scanned in the same way. -/
theorem scanFrom_add (count : Nat) (text : Text) (offset skip : Nat) :
    scanFrom (offset + count) skip text =
      (scanFrom offset skip text).map fun found => ⟨found.name, found.offset + count⟩ := by
  induction text generalizing offset skip with
  | nil => rfl
  | cons c rest hypothesis =>
    have next := hypothesis (offset + c.utf8Size)
    rw [Nat.add_right_comm] at next
    cases skip with
    | succ skip => exact next skip
    | zero =>
      rw [scanFrom, scanFrom]
      cases nameAtStart? (c :: rest) with
      | none => exact next 0
      | some name =>
        simp only [next, List.map_cons, List.cons.injEq, and_true]
        rw [Nat.add_right_comm]

/-! ## All occurrences -/

/-- Whether an interpolation occurs in a text that begins at the byte offset: it
    stands there, and its name is one. Nothing is said of other places. -/
structure OccursIn (found : Interpolation) (offset : Nat) (text : Text) : Prop where
  stands : found.StandsIn offset text
  filled : found.name ≠ []
  nameChars : ∀ c ∈ found.name, isBlank c = false ∧ c ≠ '{' ∧ c ≠ '}'

/-- A name may have any character but blanks and braces. -/
theorem isVariableChar_iff (c : Char) :
    isVariableChar c = true ↔ isBlank c = false ∧ c ≠ '{' ∧ c ≠ '}' := by
  simp only [isVariableChar, Bool.not_eq_true', Bool.or_eq_false_iff, beq_eq_false_iff_ne, and_assoc]

/-- Nothing occurs in the empty text. -/
theorem not_occursIn_nil (found : Interpolation) (offset : Nat) : ¬ found.OccursIn offset [] := by
  intro occurs
  obtain ⟨before, after, parted, _⟩ := occurs.stands
  simp at parted

/-- An interpolation occurs at the start of a text or behind its first
    character. -/
theorem occursIn_cons_iff (found : Interpolation) (offset : Nat) (c : Char) (rest : Text) :
    found.OccursIn offset (c :: rest) ↔
      (nameAtStart? (c :: rest) = some found.name ∧ found.offset = offset + 2) ∨
        found.OccursIn (offset + c.utf8Size) rest := by
  constructor
  · rintro ⟨⟨before, after, parted, counted⟩, filled, nameChars⟩
    cases before with
    | nil =>
      refine Or.inl ⟨nameAtStart?_eq_some_iff.mpr ⟨filled, ?_, after, ?_⟩, counted⟩
      · intro d member
        exact (isVariableChar_iff d).mpr (nameChars d member)
      · rw [parted]
        simp
    | cons d before =>
      obtain ⟨rfl, rfl⟩ := List.cons.inj parted
      refine Or.inr ⟨⟨before, after, rfl, ?_⟩, filled, nameChars⟩
      rw [counted, Text.size_cons]
      omega
  · rintro (⟨atStart, counted⟩ | behind)
    · obtain ⟨filled, nameChars, _⟩ := nameAtStart?_eq_some_iff.mp atStart
      obtain ⟨after, parted⟩ := parts_of_nameAtStart? atStart
      refine ⟨⟨[], after, parted, counted⟩, filled, ?_⟩
      intro d member
      exact (isVariableChar_iff d).mp (nameChars d member)
    · exact ⟨behind.stands.cons, behind.filled, behind.nameChars⟩

/-- An interpolation begins with two braces. -/
theorem braces_of_nameAtStart? {text name : Text} (found : nameAtStart? text = some name) :
    text[0]? = some '{' ∧ text[1]? = some '{' := by
  obtain ⟨after, rfl⟩ := parts_of_nameAtStart? found
  exact ⟨rfl, rfl⟩

/-- No interpolation begins behind the first brace of another one and before its
    end: the second brace has the name behind it, and no other opening brace
    follows. -/
theorem nameAtStart?_inside {c : Char} {rest name : Text}
    (found : nameAtStart? (c :: rest) = some name) {count : Nat} (inside : count < name.length + 3) :
    nameAtStart? (rest.drop count) = none := by
  obtain ⟨filled, nameChars, _⟩ := nameAtStart?_eq_some_iff.mp found
  obtain ⟨after, parted⟩ := parts_of_nameAtStart? found
  obtain ⟨rfl, rfl⟩ := List.cons.inj parted
  have noBrace : ∀ d ∈ name ++ ['}', '}'], d ≠ '{' := by
    intro d member
    rcases List.mem_append.mp member with named | closing
    · exact ((isVariableChar_iff d).mp (nameChars d named)).2.1
    · obtain rfl : d = '}' := by simpa using closing
      decide
  have behind (number : Nat) (short : number < (name ++ ['}', '}']).length) :
      (name ++ '}' :: '}' :: after)[number]? ≠ some '{' := by
    intro brace
    have regrouped : name ++ '}' :: '}' :: after = (name ++ ['}', '}']) ++ after := by simp
    rw [regrouped, List.getElem?_append_left short] at brace
    exact noBrace '{' (List.mem_of_getElem? brace) rfl
  rw [Option.eq_none_iff_forall_not_mem]
  intro other opened
  obtain ⟨first, second⟩ := braces_of_nameAtStart? (Option.mem_def.mp opened)
  simp only [List.getElem?_drop, Nat.add_zero] at first second
  rw [List.length_append, List.length_cons, List.length_singleton] at behind
  cases count with
  | zero =>
    have filledLength := List.length_pos_iff.mpr filled
    exact behind 0 (by omega) second
  | succ count => exact behind count (by omega) first

/-- A scan finds what occurs in the text, if nothing begins in the part that is
    passed over. -/
theorem mem_scanFrom_iff {offset skip : Nat} {text : Text}
    (passed : ∀ count < skip, nameAtStart? (text.drop count) = none) (found : Interpolation) :
    found ∈ scanFrom offset skip text ↔ found.OccursIn offset text := by
  fun_induction scanFrom offset skip text with
  | case1 offset skip => simp [not_occursIn_nil]
  | case2 offset skip c rest hypothesis =>
    have here : nameAtStart? (c :: rest) = none := passed 0 (Nat.zero_lt_succ skip)
    have behind := hypothesis fun count short => passed (count + 1) (Nat.succ_lt_succ short)
    rw [occursIn_cons_iff, here, behind]
    simp
  | case3 offset c rest name here hypothesis =>
    have behind := hypothesis fun count short => nameAtStart?_inside here short
    rw [occursIn_cons_iff, here, List.mem_cons, behind, Option.some.injEq]
    obtain ⟨other, start⟩ := found
    simp only [mk.injEq, eq_comm]
  | case4 offset c rest here hypothesis =>
    have behind := hypothesis fun count short => absurd short (Nat.not_lt_zero count)
    rw [occursIn_cons_iff, here, behind]
    simp

/-- A scan finds whatever occurs in the text, and nothing else. -/
theorem mem_scan_iff (text : Text) (found : Interpolation) :
    found ∈ scan text ↔ found.OccursIn 0 text :=
  mem_scanFrom_iff (fun count short => absurd short (Nat.not_lt_zero count)) found

/-- A scan finds nothing in what it passes over. -/
theorem le_offset_of_mem_scanFrom {offset skip : Nat} {text : Text} {found : Interpolation}
    (member : found ∈ scanFrom offset skip text) :
    offset + Text.size (text.take skip) + 2 ≤ found.offset := by
  fun_induction scanFrom offset skip text with
  | case1 => cases member
  | case2 offset skip c rest hypothesis =>
    have behind := hypothesis member
    rw [List.take_succ_cons, Text.size_cons]
    omega
  | case3 offset c rest name here hypothesis =>
    rw [List.take_zero, Text.size_nil]
    rcases List.mem_cons.mp member with rfl | later
    · exact Nat.le_refl _
    · have behind := hypothesis later
      omega
  | case4 offset c rest here hypothesis =>
    have behind := hypothesis member
    rw [List.take_zero, Text.size_nil] at behind ⊢
    omega

/-- The names are found in their order, and between two of them there are braces. -/
theorem pairwise_scanFrom (offset skip : Nat) (text : Text) :
    (scanFrom offset skip text).Pairwise fun earlier later =>
      earlier.nameSpan.stop < later.nameSpan.start := by
  fun_induction scanFrom offset skip text with
  | case1 => exact List.Pairwise.nil
  | case2 offset skip c rest hypothesis => exact hypothesis
  | case3 offset c rest name here hypothesis =>
    refine List.pairwise_cons.mpr ⟨?_, hypothesis⟩
    intro later member
    have behind := le_offset_of_mem_scanFrom member
    obtain ⟨after, parted⟩ := parts_of_nameAtStart? here
    obtain ⟨rfl, rfl⟩ := List.cons.inj parted
    have passed : ('{' :: (name ++ '}' :: '}' :: after)).take (name.length + 3) =
        '{' :: (name ++ ['}', '}']) := by
      have regrouped : '{' :: (name ++ '}' :: '}' :: after) =
          '{' :: (name ++ ['}', '}']) ++ after := by simp
      rw [regrouped]
      exact List.take_left' (by simp)
    have sizes : Text.size ('{' :: (name ++ ['}', '}'])) = Text.size name + 3 := by
      have brace : '{'.utf8Size = 1 ∧ '}'.utf8Size = 1 := by decide
      simp only [Text.size_cons, Text.size_append, Text.size_nil, brace]
      omega
    rw [passed, sizes] at behind
    simp only [nameSpan, Span.ofLength]
    omega
  | case4 offset c rest here hypothesis => exact hypothesis

end BlockMarkup.Interpolation
