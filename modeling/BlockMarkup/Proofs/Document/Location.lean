import BlockMarkup.Document.Line
import BlockMarkup.Proofs.Position.Placement
import BlockMarkup.Proofs.Text.Cut

/-!
# Locations in a text

The position of a byte offset depends on the characters before it and, at a
carriage return, on the one character after it. `Text.locate` finds it by going
through the characters; `Line.offset` goes back by going through the lines.
Both are total, they know no machine word and no line index.

Parting a text in two does not move anything, as long as the parting does not
come between the two characters of a break: positions in the second part are
positions of the whole, placed at the end of the first. A position never stands
for an offset inside a break, so the two walks undo each other up to rounding.
-/

namespace BlockMarkup

namespace LineBreak

/-- A break takes at least one byte. -/
theorem size_text_pos (lineBreak : LineBreak) : 0 < Text.size lineBreak.text := by
  cases lineBreak <;> decide

end LineBreak

namespace Text

/-- Whether a character is the first of a line break, given what follows it. -/
def BeginsBreak (c : Char) (rest : Text) : Prop :=
  c = '\n' ∨ (c = '\r' ∧ rest.head? = some '\n')

/-- Whether a text that is parted in two has its parting between the carriage
    return and the line feed of a break. -/
def SplitsBreak (front back : Text) : Prop :=
  front.getLast? = some '\r' ∧ back.head? = some '\n'

/-- Going through a text in the steps in which it is split into lines: a whole
    break at a time, or one character that begins no break. -/
@[elab_as_elim]
theorem byBreaks {motive : Text → Prop} (nil : motive [])
    (atBreak : ∀ (lineBreak : LineBreak) (rest : Text), motive rest →
      motive (lineBreak.text ++ rest))
    (ordinary : ∀ (c : Char) (rest : Text), ¬ BeginsBreak c rest → motive rest → motive (c :: rest))
    (text : Text) : motive text := by
  fun_induction Line.split text with
  | case1 => exact nil
  | case2 rest hypothesis => exact atBreak .lf rest hypothesis
  | case3 rest hypothesis => exact atBreak .crlf rest hypothesis
  | case4 c rest noFeed noBreak hypothesis =>
    apply ordinary c rest _ hypothesis
    rintro (feed | ⟨carriage, feed⟩)
    · exact noFeed feed
    · obtain ⟨tail, rfl⟩ := List.head?_eq_some_iff.mp feed
      exact noBreak tail carriage rfl

/-- The position of a byte offset. An offset inside a break is at the end of
    its line, an offset inside a character keeps its column, and an offset
    beyond the end is at the end. -/
def locate : Text → Nat → Position
  | [], _ => .origin
  | '\n' :: rest, offset =>
    if offset = 0 then .origin else (locate rest (offset - 1)).placedAt ⟨1, 0⟩
  | '\r' :: '\n' :: rest, offset =>
    if offset < 2 then .origin else (locate rest (offset - 2)).placedAt ⟨1, 0⟩
  | c :: rest, offset =>
    if offset < c.utf8Size then ⟨0, offset⟩
    else (locate rest (offset - c.utf8Size)).placedAt ⟨0, c.utf8Size⟩

/-! ## One step of the walk -/

/-- A break at the start of a text ends an empty line. -/
theorem split_break (lineBreak : LineBreak) (rest : Text) :
    Line.split (lineBreak.text ++ rest) = ⟨[], some lineBreak⟩ :: Line.split rest := by
  cases lineBreak <;> simp [LineBreak.text, Line.split]

/-- Any other character belongs to the first line. -/
theorem split_ordinary {c : Char} {rest : Text} (plain : ¬ BeginsBreak c rest) :
    Line.split (c :: rest) = Line.extendFirst c (Line.split rest) := by
  rw [Line.split]
  · intro feed
    exact plain (Or.inl feed)
  · rintro tail rfl rfl
    exact plain (Or.inr ⟨rfl, rfl⟩)

/-- An offset in a break is located where the break begins. -/
theorem locate_break_lt (lineBreak : LineBreak) (rest : Text) {offset : Nat}
    (inside : offset < size lineBreak.text) : locate (lineBreak.text ++ rest) offset = .origin := by
  cases lineBreak with
  | lf =>
    have zero : offset = 0 := Nat.lt_one_iff.mp inside
    simp [LineBreak.text, locate, zero]
  | crlf =>
    have below : offset < 2 := inside
    simp [LineBreak.text, locate, below]

/-- What follows a break is on the next line. -/
theorem locate_break_add (lineBreak : LineBreak) (rest : Text) (offset : Nat) :
    locate (lineBreak.text ++ rest) (size lineBreak.text + offset) =
      (locate rest offset).placedAt ⟨1, 0⟩ := by
  cases lineBreak with
  | lf =>
    change locate ('\n' :: rest) (1 + offset) = _
    have remaining : 1 + offset - 1 = offset := by omega
    rw [locate, if_neg (by omega), remaining]
  | crlf =>
    change locate ('\r' :: '\n' :: rest) (2 + offset) = _
    have remaining : 2 + offset - 2 = offset := by omega
    rw [locate, if_neg (by omega), remaining]

/-- Any other character moves the place by its bytes, and holds it if the offset is in
    it. -/
theorem locate_ordinary {c : Char} {rest : Text} (plain : ¬ BeginsBreak c rest) (offset : Nat) :
    locate (c :: rest) offset =
      if offset < c.utf8Size then ⟨0, offset⟩
      else (locate rest (offset - c.utf8Size)).placedAt ⟨0, c.utf8Size⟩ := by
  rw [locate]
  · intro feed
    exact plain (Or.inl feed)
  · rintro tail rfl rfl
    exact plain (Or.inr ⟨rfl, rfl⟩)

/-- What follows a character that begins no break is moved by its size. -/
theorem locate_ordinary_add {c : Char} {rest : Text} (plain : ¬ BeginsBreak c rest) (offset : Nat) :
    locate (c :: rest) (c.utf8Size + offset) = (locate rest offset).placedAt ⟨0, c.utf8Size⟩ := by
  have remaining : c.utf8Size + offset - c.utf8Size = offset := by omega
  rw [locate_ordinary plain, if_neg (by omega), remaining]

/-- A text begins at the origin. -/
@[simp]
theorem locate_zero (text : Text) : locate text 0 = .origin := by
  cases text using byBreaks with
  | nil => rfl
  | atBreak lineBreak rest => exact locate_break_lt lineBreak rest lineBreak.size_text_pos
  | ordinary c rest plain =>
    rw [locate_ordinary plain, if_pos c.utf8Size_pos]
    rfl

/-! ## Parting a text -/

/-- Nothing is divided at the start of a text. -/
@[simp]
theorem not_splitsBreak_nil_left (back : Text) : ¬ SplitsBreak [] back := by
  simp [SplitsBreak]

/-- Nothing is divided at its end. -/
@[simp]
theorem not_splitsBreak_nil_right (front : Text) : ¬ SplitsBreak front [] := by
  simp [SplitsBreak]

/-- A whole break in front does not matter. -/
theorem splitsBreak_break_append (lineBreak : LineBreak) (front back : Text) :
    SplitsBreak (lineBreak.text ++ front) back ↔ SplitsBreak front back := by
  cases front with
  | nil => cases lineBreak <;> simp [SplitsBreak, LineBreak.text]
  | cons c rest => simp [SplitsBreak, List.getLast?_append]

/-- A character in front matters only right before the parting, where it would
    begin the break. -/
theorem splitsBreak_cons {c : Char} {front back : Text} (plain : ¬ BeginsBreak c (front ++ back)) :
    SplitsBreak (c :: front) back ↔ SplitsBreak front back := by
  cases front with
  | nil =>
    simp only [not_splitsBreak_nil_left, iff_false]
    rintro ⟨carriage, feed⟩
    exact plain (Or.inr ⟨by simpa using carriage, feed⟩)
  | cons d rest => simp [SplitsBreak]

/-- A parting that divides no break stands before a break or after it. -/
theorem parting_break {lineBreak : LineBreak} {front back rest : Text}
    (same : front ++ back = lineBreak.text ++ rest) (whole : ¬ SplitsBreak front back) :
    front = [] ∨ ∃ tail, front = lineBreak.text ++ tail ∧ rest = tail ++ back := by
  cases front with
  | nil => exact Or.inl rfl
  | cons c tail =>
    right
    cases lineBreak with
    | lf =>
      simp only [LineBreak.text, List.cons_append, List.nil_append, List.cons.injEq] at same ⊢
      obtain ⟨rfl, rfl⟩ := same
      exact ⟨tail, ⟨rfl, rfl⟩, rfl⟩
    | crlf =>
      simp only [LineBreak.text, List.cons_append, List.nil_append, List.cons.injEq] at same ⊢
      obtain ⟨rfl, tailSame⟩ := same
      cases tail with
      | nil =>
        have feed : back = '\n' :: rest := tailSame
        exact absurd (show SplitsBreak ['\r'] back by simp [SplitsBreak, feed]) whole
      | cons d tail =>
        simp only [List.cons_append, List.cons.injEq] at tailSame
        obtain ⟨rfl, rfl⟩ := tailSame
        exact ⟨tail, ⟨rfl, rfl⟩, rfl⟩

/-- Whether a character begins a break is seen in the text up to the next
    parting that divides no break. -/
theorem not_beginsBreak_append {c : Char} {front back : Text} (plain : ¬ BeginsBreak c front)
    (whole : ¬ SplitsBreak (c :: front) back) : ¬ BeginsBreak c (front ++ back) := by
  rintro (feed | ⟨rfl, feed⟩)
  · exact plain (Or.inl feed)
  · cases front with
    | nil => exact whole ⟨rfl, feed⟩
    | cons d rest => exact plain (Or.inr ⟨rfl, feed⟩)

/-- Positions in a part are positions in the whole, placed at the end of what
    stands before the part. The induction is on the part in front, and a break
    of the whole that begins there also ends there. -/
theorem locate_append (front back : Text) (whole : ¬ SplitsBreak front back) (offset : Nat) :
    locate (front ++ back) (size front + offset) =
      (locate back offset).placedAt (locate front (size front)) := by
  induction front using byBreaks with
  | nil => simp
  | atBreak lineBreak rest hypothesis =>
    have restWhole : ¬ SplitsBreak rest back := by
      rwa [splitsBreak_break_append] at whole
    have ending := locate_break_add lineBreak rest (size rest)
    rw [size_append, Nat.add_assoc, List.append_assoc, locate_break_add, hypothesis restWhole,
      ending, Position.placedAt_placedAt]
  | ordinary c rest plain hypothesis =>
    have plainWhole : ¬ BeginsBreak c (rest ++ back) := not_beginsBreak_append plain whole
    have restWhole : ¬ SplitsBreak rest back := by
      rwa [splitsBreak_cons plainWhole] at whole
    have ending := locate_ordinary_add plain (size rest)
    rw [size_cons, Nat.add_assoc, List.cons_append, locate_ordinary_add plainWhole,
      hypothesis restWhole, ending, Position.placedAt_placedAt]

/-- What comes after a part does not move the positions in it. -/
theorem locate_append_of_le (front back : Text) (whole : ¬ SplitsBreak front back) {offset : Nat}
    (inside : offset ≤ size front) : locate (front ++ back) offset = locate front offset := by
  induction front using byBreaks generalizing offset with
  | nil =>
    have zero : offset = 0 := Nat.le_zero.mp inside
    simp [zero]
  | atBreak lineBreak rest hypothesis =>
    have restWhole : ¬ SplitsBreak rest back := by
      rwa [splitsBreak_break_append] at whole
    rw [List.append_assoc]
    rcases Nat.lt_or_ge offset (size lineBreak.text) with before | beyond
    · rw [locate_break_lt lineBreak _ before, locate_break_lt lineBreak _ before]
    · obtain ⟨later, rfl⟩ := Nat.exists_eq_add_of_le beyond
      have laterInside : later ≤ size rest := by
        rw [size_append] at inside
        omega
      rw [locate_break_add, locate_break_add, hypothesis restWhole laterInside]
  | ordinary c rest plain hypothesis =>
    have plainWhole : ¬ BeginsBreak c (rest ++ back) := not_beginsBreak_append plain whole
    have restWhole : ¬ SplitsBreak rest back := by
      rwa [splitsBreak_cons plainWhole] at whole
    rw [List.cons_append, locate_ordinary plain, locate_ordinary plainWhole]
    split
    · rfl
    · have laterInside : offset - c.utf8Size ≤ size rest := by
        rw [size_cons] at inside
        omega
      rw [hypothesis restWhole laterInside]

/-- A later offset has no earlier position. -/
theorem locate_le_locate (text : Text) {first last : Nat} (ordered : first ≤ last) :
    locate text first ≤ locate text last := by
  induction text using byBreaks generalizing first last with
  | nil => exact Position.origin_le _
  | atBreak lineBreak rest hypothesis =>
    rcases Nat.lt_or_ge first (size lineBreak.text) with before | beyond
    · rw [locate_break_lt lineBreak rest before]
      exact Position.origin_le _
    · obtain ⟨start, rfl⟩ := Nat.exists_eq_add_of_le beyond
      obtain ⟨stop, rfl⟩ := Nat.exists_eq_add_of_le (Nat.le_trans beyond ordered)
      rw [locate_break_add, locate_break_add]
      exact Position.placedAt_le_placedAt _ (hypothesis (by omega))
  | ordinary c rest plain hypothesis =>
    rw [locate_ordinary plain, locate_ordinary plain]
    by_cases before : first < c.utf8Size
    · rw [if_pos before]
      by_cases lastBefore : last < c.utf8Size
      · rw [if_pos lastBefore, Position.le_iff]
        exact Or.inr ⟨rfl, ordered⟩
      · rw [if_neg lastBefore]
        -- The column of what follows the character is at least its size.
        have reached := Position.placedAt_le_placedAt ⟨0, c.utf8Size⟩
          (Position.origin_le (locate rest (last - c.utf8Size)))
        rw [Position.origin_placedAt, Position.le_iff] at reached
        rw [Position.le_iff]
        simp only at reached ⊢
        omega
    · rw [if_neg before, if_neg (by omega)]
      exact Position.placedAt_le_placedAt _ (hypothesis (by omega))

/-- Both numbers of a location are bounded by the size of the text. -/
theorem locate_le_size (text : Text) (offset : Nat) :
    (locate text offset).line + (locate text offset).character ≤ size text := by
  induction text using byBreaks generalizing offset with
  | nil => exact Nat.le_refl 0
  | atBreak lineBreak rest hypothesis =>
    have positive := lineBreak.size_text_pos
    rw [size_append]
    rcases Nat.lt_or_ge offset (size lineBreak.text) with before | beyond
    · rw [locate_break_lt lineBreak rest before]
      exact Nat.zero_le _
    · obtain ⟨later, rfl⟩ := Nat.exists_eq_add_of_le beyond
      have behind := hypothesis later
      rw [locate_break_add, Position.placedAt_lineStart]
      simp only
      omega
  | ordinary c rest plain hypothesis =>
    have behind := hypothesis (offset - c.utf8Size)
    rw [locate_ordinary plain, size_cons]
    split
    · simp only
      omega
    · by_cases first : (locate rest (offset - c.utf8Size)).line = 0
      · simp only [Position.placedAt, first, if_true]
        omega
      · simp only [Position.placedAt, first, if_false]
        omega

/-- A parting inside a part that divides no break divides none of the whole. -/
theorem not_splitsBreak_of_append {front middle back : Text}
    (whole : ¬ SplitsBreak (front ++ middle) back) : ¬ SplitsBreak middle back := by
  rintro ⟨carriage, feed⟩
  apply whole
  refine ⟨?_, feed⟩
  rw [List.getLast?_append, carriage]
  rfl

/-- A parting of the middle one of three parts divides a break of the whole only
    if it divides one of that part, or if the part begins or ends there. -/
theorem not_splitsBreak_append_append {front before after back : Text}
    (startWhole : ¬ SplitsBreak front ((before ++ after) ++ back))
    (whole : ¬ SplitsBreak before after) (stopWhole : ¬ SplitsBreak (before ++ after) back) :
    ¬ SplitsBreak (front ++ before) (after ++ back) := by
  rcases List.eq_nil_or_concat before with rfl | ⟨earlier, last, rfl⟩
  · simpa using startWhole
  · cases after with
    | nil => simpa [SplitsBreak] using stopWhole
    | cons first later => simpa [SplitsBreak, ← List.append_assoc] using whole

end Text

namespace Line

open Text

/-- The byte offset of a position in a list of lines. A line beyond the last
    stands for the end. -/
def offset : List Line → Position → Nat
  | [], _ => 0
  | line :: _, ⟨0, character⟩ => floorBoundary line.content character
  | line :: rest, ⟨index + 1, character⟩ => size line.text + offset rest ⟨index, character⟩

/-! ## The way back -/

/-- Without lines every position is at the start. -/
@[simp]
theorem offset_nil (p : Position) : offset [] p = 0 := by
  simp [offset]

/-- In the first line the offset is the boundary below the character. -/
@[simp]
theorem offset_cons_zero (line : Line) (rest : List Line) (character : Nat) :
    offset (line :: rest) ⟨0, character⟩ = floorBoundary line.content character := by
  simp [offset]

/-- In a later line the bytes of the first are added. -/
@[simp]
theorem offset_cons_succ (line : Line) (rest : List Line) (index character : Nat) :
    offset (line :: rest) ⟨index + 1, character⟩ =
      size line.text + offset rest ⟨index, character⟩ := by
  simp [offset]

/-- An offset is never beyond the end. -/
theorem offset_le_size (lines : List Line) (p : Position) :
    offset lines p ≤ size (joined lines) := by
  induction lines generalizing p with
  | nil => simp
  | cons line rest hypothesis =>
    obtain ⟨index, character⟩ := p
    have sizes : size (joined (line :: rest)) = size line.text + size (joined rest) := by
      simp [joined]
    rw [sizes]
    cases index with
    | zero =>
      have content := floorBoundary_le_size line.content character
      have text : size line.text = size line.content + size line.breakText := size_append _ _
      rw [offset_cons_zero]
      omega
    | succ index =>
      have later := hypothesis ⟨index, character⟩
      rw [offset_cons_succ]
      omega

/-- A later position has no earlier offset. -/
theorem offset_le_offset (lines : List Line) {p q : Position} (ordered : p ≤ q) :
    offset lines p ≤ offset lines q := by
  induction lines generalizing p q with
  | nil => simp
  | cons line rest hypothesis =>
    obtain ⟨pLine, pCharacter⟩ := p
    obtain ⟨qLine, qCharacter⟩ := q
    simp only [Position.le_iff] at ordered
    cases pLine with
    | zero =>
      rw [offset_cons_zero]
      cases qLine with
      | zero =>
        rw [offset_cons_zero]
        exact floorBoundary_le_floorBoundary _ (by omega)
      | succ qLine =>
        have content := floorBoundary_le_size line.content pCharacter
        have text : size line.text = size line.content + size line.breakText := size_append _ _
        rw [offset_cons_succ]
        omega
    | succ pLine =>
      cases qLine with
      | zero => omega
      | succ qLine =>
        have later : offset rest ⟨pLine, pCharacter⟩ ≤ offset rest ⟨qLine, qCharacter⟩ := by
          apply hypothesis
          simp only [Position.le_iff]
          omega
        rw [offset_cons_succ, offset_cons_succ]
        omega

/-- A character in front of the first line moves everything behind it by its
    size. -/
theorem offset_extendFirst (c : Char) {lines : List Line} (some : lines ≠ []) (p : Position) :
    offset (extendFirst c lines) (p.placedAt ⟨0, c.utf8Size⟩) = c.utf8Size + offset lines p := by
  obtain ⟨line, rest, rfl⟩ := List.exists_cons_of_ne_nil some
  obtain ⟨index, character⟩ := p
  cases index with
  | zero =>
    have moved := floorBoundary_size_add [c] line.content character
    simp only [size_cons, size_nil, Nat.add_zero, List.singleton_append] at moved
    simpa [extendFirst, Position.placedAt] using moved
  | succ index =>
    simp [extendFirst, Position.placedAt, text, breakText, Nat.add_assoc]

/-- A column inside the first character is at its start. -/
theorem offset_extendFirst_short (c : Char) (lines : List Line) {p : Position} (first : p.line = 0)
    (short : p.character < c.utf8Size) : offset (extendFirst c lines) p = 0 := by
  obtain ⟨index, character⟩ := p
  have inside : ¬ c.utf8Size ≤ character := Nat.not_le_of_lt short
  simp only at first
  subst first
  cases lines <;> simp [extendFirst, floorBoundary, inside]

/-- The position of an offset leads back to the offset, unless it divides a
    break or a character. -/
theorem offset_locate {source front back : Text} (parted : source = front ++ back)
    (whole : ¬ SplitsBreak front back) :
    offset (split source) (locate source (size front)) = size front := by
  induction source using byBreaks generalizing front with
  | nil =>
    obtain ⟨rfl, rfl⟩ := List.append_eq_nil_iff.mp parted.symm
    rfl
  | atBreak lineBreak rest hypothesis =>
    rcases parting_break parted.symm whole with rfl | ⟨tail, rfl, rfl⟩
    · simp [split_break, Position.origin]
    · have tailWhole : ¬ SplitsBreak tail back := by
        rwa [splitsBreak_break_append] at whole
      have behind := hypothesis rfl tailWhole
      rw [size_append, locate_break_add, split_break, Position.placedAt_lineStart, Nat.add_comm 1,
        offset_cons_succ, behind]
      simp [text, breakText]
  | ordinary c rest plain hypothesis =>
    cases front with
    | nil =>
      rw [size_nil, locate_zero, split_ordinary plain]
      exact offset_extendFirst_short c _ rfl c.utf8Size_pos
    | cons d tail =>
      obtain ⟨rfl, rfl⟩ := List.cons.inj parted
      have tailWhole : ¬ SplitsBreak tail back := by
        rwa [splitsBreak_cons plain] at whole
      have behind := hypothesis rfl tailWhole
      rw [size_cons, locate_ordinary_add plain, split_ordinary plain,
        offset_extendFirst c (split_ne_nil _), behind]

/-- The offset of a position leads back to the position, with its column
    lowered to a boundary. -/
theorem locate_offset {source : Text} {p : Position} {line : Line}
    (present : (split source)[p.line]? = some line) :
    locate source (offset (split source) p) = ⟨p.line, floorBoundary line.content p.character⟩ := by
  induction source using byBreaks generalizing p line with
  | nil =>
    obtain ⟨index, character⟩ := p
    cases index with
    | zero =>
      cases present
      simp [split, floorBoundary, Position.origin]
    | succ index => simp [split] at present
  | atBreak lineBreak rest hypothesis =>
    obtain ⟨index, character⟩ := p
    rw [split_break] at present ⊢
    cases index with
    | zero =>
      cases present
      simp [floorBoundary, Position.origin]
    | succ index =>
      have behind := hypothesis (p := ⟨index, character⟩) (by simpa using present)
      have sizes : size (Line.text ⟨[], some lineBreak⟩) = size lineBreak.text := by
        simp [text, breakText]
      rw [offset_cons_succ, sizes, locate_break_add, behind, Position.placedAt_lineStart,
        Nat.add_comm 1]
  | ordinary c rest plain hypothesis =>
    obtain ⟨line', others, lines⟩ := List.exists_cons_of_ne_nil (split_ne_nil rest)
    rw [split_ordinary plain] at present ⊢
    rcases p.short_or_placedAt c.utf8Size with ⟨first, short⟩ | ⟨q, rfl⟩
    · rw [offset_extendFirst_short c _ first short, locate_zero]
      rw [lines, first] at present
      cases present
      have inside : ¬ c.utf8Size ≤ p.character := Nat.not_le_of_lt short
      simp [floorBoundary, inside, first, Position.origin]
    · rw [offset_extendFirst c (split_ne_nil rest), locate_ordinary_add plain]
      obtain ⟨index, character⟩ := q
      rw [lines] at present
      cases index with
      | zero =>
        cases present
        have behind := hypothesis (p := ⟨0, character⟩) (by rw [lines]; rfl)
        have moved := floorBoundary_size_add [c] line'.content character
        simp only [size_cons, size_nil, Nat.add_zero, List.singleton_append] at moved
        rw [behind]
        simp [Position.placedAt, moved]
      | succ index =>
        rw [Position.placedAt_column_line] at present
        have behind := hypothesis (p := ⟨index + 1, character⟩) (by rw [lines]; exact present)
        rw [behind]
        simp [Position.placedAt]

/-- A position stands for an offset that divides neither a character nor a
    break. -/
theorem offset_parts (source : Text) (p : Position) :
    ∃ front back, source = front ++ back ∧ size front = offset (split source) p ∧
      ¬ SplitsBreak front back := by
  induction source using byBreaks generalizing p with
  | nil =>
    have zero : offset (split []) p = 0 := Nat.le_zero.mp (offset_le_size (split []) p)
    exact ⟨[], [], rfl, zero.symm, not_splitsBreak_nil_left []⟩
  | atBreak lineBreak rest hypothesis =>
    obtain ⟨index, character⟩ := p
    rw [split_break]
    cases index with
    | zero => exact ⟨[], lineBreak.text ++ rest, rfl, rfl, not_splitsBreak_nil_left _⟩
    | succ index =>
      obtain ⟨front, back, rfl, sizes, whole⟩ := hypothesis ⟨index, character⟩
      refine ⟨lineBreak.text ++ front, back, by simp, ?_, ?_⟩
      · simp [text, breakText, sizes]
      · rwa [splitsBreak_break_append]
  | ordinary c rest plain hypothesis =>
    rw [split_ordinary plain]
    rcases p.short_or_placedAt c.utf8Size with ⟨first, short⟩ | ⟨q, rfl⟩
    · refine ⟨[], c :: rest, rfl, ?_, not_splitsBreak_nil_left _⟩
      exact (offset_extendFirst_short c _ first short).symm
    · obtain ⟨front, back, rfl, sizes, whole⟩ := hypothesis q
      refine ⟨c :: front, back, rfl, ?_, ?_⟩
      · rw [size_cons, sizes, offset_extendFirst c (split_ne_nil _)]
      · rwa [splitsBreak_cons plain]

end Line

end BlockMarkup
