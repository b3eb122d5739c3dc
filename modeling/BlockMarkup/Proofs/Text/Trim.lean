import BlockMarkup.Proofs.Text.Cut
import BlockMarkup.Text.Word

/-!
# Trimming and the pieces of a line

The lines of a file are given as pieces with blanks around them. Trimming finds
such a piece again: what stands between blanks, and itself begins and ends with
other characters, is what is left when the blanks are taken off. A run of
characters of one kind, none of them blank, is found by the kind as well.

Word characters are never blank. This is a fact about two tables of Unicode.
-/

namespace BlockMarkup

/-! ## Word characters are no blanks -/

/-- The letters and digits of ASCII lie between two code points. -/
theorem toNat_of_isAlphanum {c : Char} (alphanumeric : c.isAlphanum = true) :
    48 ≤ c.toNat ∧ c.toNat ≤ 122 := by
  rcases (Bool.or_eq_true _ _).mp alphanumeric with letter | digit
  · rcases (Bool.or_eq_true _ _).mp letter with upper | lower
    · have inside : 65 ≤ c.toNat ∧ c.toNat ≤ 90 := of_decide_eq_true upper
      omega
    · obtain ⟨low, high⟩ := (Bool.and_eq_true _ _).mp lower
      have inside : 97 ≤ c.toNat ∧ c.toNat ≤ 122 :=
        ⟨of_decide_eq_true low, of_decide_eq_true high⟩
      omega
  · obtain ⟨low, high⟩ := (Bool.and_eq_true _ _).mp digit
    have inside : 48 ≤ c.toNat ∧ c.toNat ≤ 57 := ⟨of_decide_eq_true low, of_decide_eq_true high⟩
    omega

/-- The ranges of word characters, those of ASCII and those of the table, lie
    between the ranges of blanks. -/
theorem wordRanges_apart : ∀ word ∈ (48, 122) :: wordRanges, ∀ blank ∈ blankRanges,
    word.2 < blank.1 ∨ blank.2 < word.1 := by
  decide +kernel

/-- A word character lies in one of those ranges. -/
theorem exists_range_of_isWord {c : Char} (word : isWord c = true) :
    ∃ range ∈ (48, 122) :: wordRanges, range.1 ≤ c.toNat ∧ c.toNat ≤ range.2 := by
  simp only [isWord, Bool.or_eq_true, Bool.and_eq_true, decide_eq_true_eq, beq_iff_eq,
    List.any_eq_true] at word
  rcases word with (alphanumeric | rfl) | ⟨_, range, member, inside⟩
  · exact ⟨(48, 122), List.mem_cons_self, toNat_of_isAlphanum alphanumeric⟩
  · exact ⟨(48, 122), List.mem_cons_self, by decide⟩
  · exact ⟨range, List.mem_cons_of_mem _ member, inside⟩

/-- So no word character is blank. -/
theorem isBlank_of_isWord {c : Char} (word : isWord c = true) : isBlank c = false := by
  obtain ⟨range, member, inside⟩ := exists_range_of_isWord word
  rw [Bool.eq_false_iff]
  intro blank
  obtain ⟨other, blankMember, blankInside⟩ := List.any_eq_true.mp blank
  simp only [Bool.and_eq_true, decide_eq_true_eq] at blankInside
  have apart := wordRanges_apart range member other blankMember
  omega

/-! ## Blanks taken off -/

namespace Text

/-- Blanks in front are taken off with those of the text. -/
theorem trimStart_append {lead : Text} (blank : allBlank lead = true) (rest : Text) :
    trimStart (lead ++ rest) = trimStart rest :=
  List.dropWhile_append_of_pos (List.all_eq_true.mp blank)

/-- Nothing is taken off a text that begins with another character. -/
theorem trimStart_cons {c : Char} (filled : isBlank c = false) (rest : Text) :
    trimStart (c :: rest) = c :: rest :=
  List.dropWhile_cons_of_neg (by simp [filled])

/-- Blanks in front of another character are the leading ones. -/
theorem leadingBlanks_append_cons {lead : Text} (blank : allBlank lead = true) {c : Char}
    (filled : isBlank c = false) (rest : Text) : leadingBlanks (lead ++ c :: rest) = lead := by
  rw [leadingBlanks, List.takeWhile_append_of_pos (List.all_eq_true.mp blank),
    List.takeWhile_cons_of_neg (by simp [filled]), List.append_nil]

/-- Blanks behind are taken off with those of the text. -/
theorem trimEnd_append_blank (front : Text) {tail : Text} (blank : allBlank tail = true) :
    trimEnd (front ++ tail) = trimEnd front := by
  have reversed : allBlank tail.reverse = true := by rwa [allBlank, List.all_reverse]
  have taken := trimStart_append reversed front.reverse
  simp only [trimStart] at taken
  rw [trimEnd, trimEnd, List.reverse_append, taken]

/-- Nothing is taken off a text that ends with another character. -/
theorem trimEnd_append_filled (front : Text) {c : Char} (filled : isBlank c = false) :
    trimEnd (front ++ [c]) = front ++ [c] := by
  have kept := trimStart_cons filled front.reverse
  rw [trimStart] at kept
  rw [trimEnd, List.reverse_append, List.reverse_singleton, List.singleton_append, kept,
    List.reverse_cons, List.reverse_reverse]

/-- Nor off one that has no blanks at all. -/
theorem trimEnd_unbroken {text : Text} (unbroken : ∀ c ∈ text, isBlank c = false) :
    trimEnd text = text := by
  rcases List.eq_nil_or_concat text with rfl | ⟨front, c, made⟩
  · rfl
  · rw [List.concat_eq_append] at made
    subst made
    exact trimEnd_append_filled front (unbroken c (by simp))

/-- Nothing is left of a text that has nothing but blanks. -/
theorem trim_blank {text : Text} (blank : allBlank text = true) : trim text = [] := by
  have taken := trimStart_append blank []
  rw [List.append_nil] at taken
  rw [trim, taken]
  rfl

/-- A text that has nothing but blanks is its own leading blanks. -/
theorem leadingBlanks_blank {text : Text} (blank : allBlank text = true) :
    leadingBlanks text = text := by
  have kept : (text ++ []).takeWhile isBlank = text ++ [].takeWhile isBlank :=
    List.takeWhile_append_of_pos (List.all_eq_true.mp blank)
  rwa [List.append_nil, List.takeWhile_nil, List.append_nil] at kept

/-- The leading blanks are blank. -/
theorem allBlank_leadingBlanks (text : Text) : allBlank (leadingBlanks text) = true :=
  List.all_takeWhile

/-- What stands before a text that begins with no blank, and is taken off, are
    the leading blanks. -/
theorem leadingBlanks_of_trimStart {lead rest : Text} (taken : trimStart (lead ++ rest) = rest) :
    leadingBlanks (lead ++ rest) = lead := by
  have parts := leadingBlanks_append_trimStart (lead ++ rest)
  rw [taken] at parts
  exact List.append_cancel_right parts

/-- None are left when they have been taken off. -/
theorem leadingBlanks_trimStart (text : Text) : leadingBlanks (trimStart text) = [] := by
  have taken : trimStart ([] ++ trimStart text) = trimStart text := trimStart_trimStart text
  exact leadingBlanks_of_trimStart taken

/-- A text that begins with another character, and of whose end nothing is
    trimmed, is found between blanks. -/
theorem trim_between {lead tail : Text} (blankLead : allBlank lead = true)
    (blankTail : allBlank tail = true) {middle : Text}
    (begins : ∃ c rest, middle = c :: rest ∧ isBlank c = false) (ends : trimEnd middle = middle) :
    trim (lead ++ (middle ++ tail)) = middle := by
  obtain ⟨c, rest, started, filled⟩ := begins
  rw [trim, trimStart_append blankLead, started, List.cons_append, trimStart_cons filled,
    ← List.cons_append, ← started, trimEnd_append_blank _ blankTail, ends]

/-- So is a text that has no blanks. -/
theorem trim_unbroken {lead tail : Text} (blankLead : allBlank lead = true)
    (blankTail : allBlank tail = true) {middle : Text} (filled : middle ≠ [])
    (unbroken : ∀ c ∈ middle, isBlank c = false) : trim (lead ++ (middle ++ tail)) = middle := by
  obtain ⟨c, rest, cons⟩ := List.exists_cons_of_ne_nil filled
  exact trim_between blankLead blankTail ⟨c, rest, cons, unbroken c (by simp [cons])⟩
    (trimEnd_unbroken unbroken)

/-! ## Runs of characters of one kind -/

/-- The blanks before a text without blanks are found, and it is left with what
    follows it. -/
theorem trimStart_unbroken {lead : Text} (blank : allBlank lead = true) {run : Text}
    (filled : run ≠ []) (unbroken : ∀ c ∈ run, isBlank c = false) (after : Text) :
    trimStart (lead ++ (run ++ after)) = run ++ after ∧
      leadingBlanks (lead ++ (run ++ after)) = lead := by
  obtain ⟨c, rest, rfl⟩ := List.exists_cons_of_ne_nil filled
  have first := unbroken c List.mem_cons_self
  rw [List.cons_append]
  constructor
  · rw [trimStart_append blank, trimStart_cons first]
  · exact leadingBlanks_append_cons blank first (rest ++ after)

section Run

variable {p : Char → Bool} {run after : Text} (kind : run.all p = true)
  (stops : ∀ c, after.head? = some c → p c = false)

include kind stops

/-- A run ends where a character of another kind follows, or nothing. -/
theorem takeWhile_run : (run ++ after).takeWhile p = run := by
  rw [List.takeWhile_append_of_pos (List.all_eq_true.mp kind)]
  cases after with
  | nil => exact List.append_nil run
  | cons c rest => rw [List.takeWhile_cons_of_neg (by simp [stops c rfl]), List.append_nil]

/-- What follows a run is left behind it. -/
theorem dropWhile_run : (run ++ after).dropWhile p = after := by
  rw [List.dropWhile_append_of_pos (List.all_eq_true.mp kind)]
  cases after with
  | nil => rfl
  | cons c rest => rw [List.dropWhile_cons_of_neg (by simp [stops c rfl])]

end Run

/-- The blanks before a text without blanks end where it begins. -/
theorem stops_unbroken {run : Text} (filled : run ≠ []) (unbroken : ∀ c ∈ run, isBlank c = false)
    (after : Text) : ∀ c, (run ++ after).head? = some c → isBlank c = false := by
  intro c first
  obtain ⟨other, rest, rfl⟩ := List.exists_cons_of_ne_nil filled
  obtain rfl : other = c := Option.some.inj first
  exact unbroken other List.mem_cons_self

/-- What is left of a text without its leading blanks does not begin with a blank. -/
theorem stops_of_trimStart {text taken : Text} (trimmed : trimStart text = taken) :
    ∀ c, taken.head? = some c → isBlank c = false := by
  intro c first
  rcases trimStart_eq_nil_or_cons text with empty | ⟨other, rest, left, filled⟩
  · rw [← trimmed, empty] at first
    cases first
  · rw [← trimmed, left] at first
    obtain rfl : other = c := Option.some.inj first
    exact filled

/-- A kind of characters that are not blank stops at blanks, if it stops behind
    them. -/
theorem stops_append_of_blanks {p : Char → Bool} (solid : ∀ c, p c = true → isBlank c = false)
    {gap after : Text} (blank : allBlank gap = true)
    (stops : ∀ c, after.head? = some c → p c = false) :
    ∀ c, (gap ++ after).head? = some c → p c = false := by
  intro c first
  cases gap with
  | nil => exact stops c first
  | cons b gap =>
    obtain rfl : b = c := Option.some.inj first
    have blankFirst : isBlank b = true := List.all_eq_true.mp blank b List.mem_cons_self
    rw [Bool.eq_false_iff]
    intro kind
    rw [solid b kind] at blankFirst
    cases blankFirst

/-- Such a kind stops at blanks in front of a character of another kind. -/
theorem stops_of_blanks {p : Char → Bool} (solid : ∀ c, p c = true → isBlank c = false)
    {gap : Text} (blank : allBlank gap = true) {c : Char} (other : p c = false) (rest : Text) :
    ∀ d, (gap ++ c :: rest).head? = some d → p d = false := by
  apply stops_append_of_blanks solid blank
  rintro d ⟨⟩
  exact other

end Text

end BlockMarkup
