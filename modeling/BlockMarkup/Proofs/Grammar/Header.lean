import BlockMarkup.Proofs.Settings.Validity
import BlockMarkup.Proofs.Text.Trim

/-!
# Header lines by their last character

A header line is taken apart from its start: blanks, the name, blanks, the
bracket, blanks. The same lines and the same names can be told by trimming
alone. The trimmed line ends with the bracket, and what stands before that is
trimmed at its end to the name.

The settings list names of blocks, which are looked at in a check of their own.
A name passes that check exactly if a header can carry it, so no listed name is
useless and every block of a file can be listed.
-/

namespace BlockMarkup

/-! ## The pieces of a header line -/

/-- A name is made of word characters, hyphens and colons. -/
theorem isNameChar_iff (c : Char) :
    isNameChar c = true ↔ isWord c = true ∨ c = '-' ∨ c = ':' := by
  simp only [isNameChar, Bool.or_eq_true, beq_iff_eq, or_assoc]

/-- None of them is blank. -/
theorem isBlank_of_isNameChar {c : Char} (named : isNameChar c = true) : isBlank c = false := by
  rcases (isNameChar_iff c).mp named with word | rfl | rfl
  · exact isBlank_of_isWord word
  · decide
  · decide

/-- A text is a name if it has such characters only, and at least one. -/
theorem isBlockName_iff (name : Text) :
    isBlockName name = true ↔ name ≠ [] ∧ name.all isNameChar = true := by
  simp [isBlockName]

namespace Bracket

/-- No opening bracket is blank. -/
theorem isBlank_opening (bracket : Bracket) : isBlank bracket.opening = false := by
  cases bracket <;> decide

/-- None can stand in a name. -/
theorem isNameChar_opening (bracket : Bracket) : isNameChar bracket.opening = false := by
  cases bracket <;> decide

/-- A bracket is told by its opening character. -/
theorem ofOpening?_opening (bracket : Bracket) : ofOpening? bracket.opening = some bracket := by
  cases bracket <;> rfl

end Bracket

namespace HeaderLine

/-- Whether pieces are such as a header line has. -/
structure Fits (header : HeaderLine) : Prop where
  lead : Text.allBlank header.lead = true
  name : isBlockName header.name = true
  gap : Text.allBlank header.gap = true
  trail : Text.allBlank header.trail = true

/-- The pieces of a header line stand one behind another. -/
theorem text_eq (header : HeaderLine) :
    header.text =
      header.lead ++ (header.name ++ (header.gap ++ header.bracket.opening :: header.trail)) := by
  simp only [text, List.append_assoc]

/-- The pieces that a line is read as are such as a header line has. -/
theorem fits_of_read? {line : Text} {header : HeaderLine} (found : read? line = some header) :
    header.Fits := by
  simp only [read?] at found
  split at found
  · cases found
  · cases found
  · next c trail _ _ filled =>
    split at found
    · next blank =>
      obtain ⟨bracket, _, rfl⟩ := Option.map_eq_some_iff.mp found
      refine ⟨Text.allBlank_leadingBlanks line, ?_, Text.allBlank_leadingBlanks _, blank⟩
      exact (isBlockName_iff _).mpr ⟨filled, List.all_takeWhile⟩
    · cases found

namespace Fits

variable {header : HeaderLine} (fits : header.Fits)

include fits

/-- The name has at least one character. -/
theorem filled : header.name ≠ [] :=
  ((isBlockName_iff header.name).mp fits.name).1

/-- It has name characters only. -/
theorem nameChars : header.name.all isNameChar = true :=
  ((isBlockName_iff header.name).mp fits.name).2

/-- There is no blank in it. -/
theorem unbroken : ∀ c ∈ header.name, isBlank c = false := by
  intro c member
  exact isBlank_of_isNameChar (List.all_eq_true.mp fits.nameChars c member)

/-- A line is read as the pieces that it is made of. -/
theorem read?_text : read? header.text = some header := by
  have stops := Text.stops_of_blanks (fun c => isBlank_of_isNameChar (c := c)) fits.gap
    header.bracket.isNameChar_opening header.trail
  obtain ⟨body, lead⟩ := Text.trimStart_unbroken fits.lead fits.filled fits.unbroken
    (header.gap ++ header.bracket.opening :: header.trail)
  have name := Text.takeWhile_run fits.nameChars stops
  have afterName := Text.dropWhile_run fits.nameChars stops
  have rest : Text.trimStart (header.gap ++ header.bracket.opening :: header.trail) =
      header.bracket.opening :: header.trail := by
    rw [Text.trimStart_append fits.gap, Text.trimStart_cons header.bracket.isBlank_opening]
  have gap := Text.leadingBlanks_append_cons fits.gap header.bracket.isBlank_opening header.trail
  rw [text_eq, read?]
  simp only [body, lead, name, afterName, rest, gap]
  split
  · next empty => exact absurd empty fits.filled
  · next empty _ => cases empty
  · next c trail same _ =>
    obtain ⟨rfl, rfl⟩ := List.cons.inj same
    rw [if_pos fits.trail, header.bracket.ofOpening?_opening, Option.map_some]

/-- The blanks before the name are the leading ones. -/
theorem leadingBlanks_text : Text.leadingBlanks header.text = header.lead := by
  rw [text_eq]
  exact (Text.trimStart_unbroken fits.lead fits.filled fits.unbroken _).2

/-- The trimmed line ends with the bracket. -/
theorem trim_text :
    Text.trim header.text = header.name ++ header.gap ++ [header.bracket.opening] := by
  have parts : header.text = header.lead ++
      (header.name ++ header.gap ++ [header.bracket.opening] ++ header.trail) := by
    simp only [text, List.append_assoc, List.singleton_append]
  rw [parts]
  refine Text.trim_between fits.lead fits.trail ?_
    (Text.trimEnd_append_filled _ header.bracket.isBlank_opening)
  obtain ⟨c, rest, cons⟩ := List.exists_cons_of_ne_nil fits.filled
  refine ⟨c, rest ++ header.gap ++ [header.bracket.opening], by simp [cons], ?_⟩
  exact fits.unbroken c (by simp [cons])

/-- Before the bracket stands the name with blanks behind it. -/
theorem trimEnd_name : Text.trimEnd (header.name ++ header.gap) = header.name := by
  rw [Text.trimEnd_append_blank _ fits.gap, Text.trimEnd_unbroken fits.unbroken]

end Fits

end HeaderLine

/-! ## The last character -/

/-- Whether a trimmed line is a name with an opening bracket behind it, blanks
    between the two left aside. -/
structure PartsHeader (line front : Text) (bracket : Bracket) : Prop where
  trimmed : Text.trim line = front ++ [bracket.opening]
  filled : Text.trimEnd front ≠ []
  nameChars : ∀ c ∈ Text.trimEnd front, isWord c = true ∨ c = '-' ∨ c = ':'

namespace BlockHeader

/-- The header of a line that has a text and a bracket in it. -/
def ofParts (line front : Text) (bracket : Bracket) (index : Nat) : BlockHeader :=
  let name := Text.trimEnd front
  ⟨name, Range.ofLength index (Text.size (Text.leadingBlanks line)) (Text.size name), bracket⟩

end BlockHeader

namespace PartsHeader

variable {line front : Text} {bracket : Bracket}

/-- What stands before the bracket is a name with blanks behind it. -/
theorem isBlockName_trimEnd (parts : PartsHeader line front bracket) :
    isBlockName (Text.trimEnd front) = true := by
  refine (isBlockName_iff _).mpr ⟨parts.filled, List.all_eq_true.mpr ?_⟩
  intro c member
  exact (isNameChar_iff c).mpr (parts.nameChars c member)

/-- A line that ends with a bracket is made of the pieces of a header line. -/
theorem exists_fits (parts : PartsHeader line front bracket) :
    ∃ header : HeaderLine, header.Fits ∧ header.text = line ∧
      header.name = Text.trimEnd front ∧ header.bracket = bracket := by
  obtain ⟨trail, line_eq, blankTrail⟩ := Text.leadingBlanks_append_trim_append_blanks line
  obtain ⟨gap, front_eq, blankGap⟩ := Text.trimEnd_append_blanks front
  refine ⟨⟨Text.leadingBlanks line, Text.trimEnd front, gap, bracket, trail⟩,
    ⟨Text.allBlank_leadingBlanks line, parts.isBlockName_trimEnd, blankGap, blankTrail⟩, ?_, rfl,
    rfl⟩
  calc Text.leadingBlanks line ++ Text.trimEnd front ++ gap ++ bracket.opening :: trail
      = Text.leadingBlanks line ++ (Text.trimEnd front ++ gap ++ [bracket.opening] ++ trail) := by
        simp only [List.append_assoc, List.singleton_append]
    _ = Text.leadingBlanks line ++ (Text.trim line ++ trail) := by
        rw [← front_eq, parts.trimmed]
    _ = line := line_eq.symm

end PartsHeader

namespace HeaderLine.Fits

variable {header : HeaderLine} (fits : header.Fits)

include fits

/-- The line that pieces make up ends with the bracket among them. -/
theorem partsHeader : PartsHeader header.text (header.name ++ header.gap) header.bracket where
  trimmed := fits.trim_text
  filled := by
    rw [fits.trimEnd_name]
    exact fits.filled
  nameChars := by
    intro c member
    rw [fits.trimEnd_name] at member
    exact (isNameChar_iff c).mp (List.all_eq_true.mp fits.nameChars c member)

/-- A header is read as the pieces of its line. -/
theorem ofLine?_text (index : Nat) :
    BlockHeader.ofLine? header.text index =
      some ⟨header.name, Range.ofLength index (Text.size header.lead) (Text.size header.name),
        header.bracket⟩ := by
  rw [BlockHeader.ofLine?, fits.read?_text, Option.map_some]

end HeaderLine.Fits

namespace BlockHeader

/-- A line holds a header exactly if it ends with a bracket behind a name. -/
theorem ofLine?_eq_some_iff (line : Text) (index : Nat) (header : BlockHeader) :
    ofLine? line index = some header ↔
      ∃ front bracket, PartsHeader line front bracket ∧
        header = ofParts line front bracket index := by
  constructor
  · intro found
    obtain ⟨pieces, read, rfl⟩ := Option.map_eq_some_iff.mp found
    have fits := HeaderLine.fits_of_read? read
    obtain rfl := HeaderLine.text_of_read? read
    refine ⟨_, _, fits.partsHeader, ?_⟩
    rw [ofParts, fits.trimEnd_name, fits.leadingBlanks_text]
  · rintro ⟨front, bracket, parts, rfl⟩
    obtain ⟨pieces, fits, rfl, name, rfl⟩ := parts.exists_fits
    rw [fits.ofLine?_text, ofParts, fits.leadingBlanks_text, name]

/-- The name stands where the header says. -/
theorem slice?_ofParts {line front : Text} {bracket : Bracket}
    (parts : PartsHeader line front bracket) (index : Nat) :
    Text.slice? line (ofParts line front bracket index).nameRange.start.character
      (ofParts line front bracket index).nameRange.stop.character =
        some (ofParts line front bracket index).name := by
  obtain ⟨pieces, fits, rfl, name, rfl⟩ := parts.exists_fits
  refine (Text.slice?_eq_some_iff _ _ _ _).mpr ⟨pieces.lead,
    pieces.gap ++ pieces.bracket.opening :: pieces.trail, ?_, ?_, rfl⟩
  · rw [ofParts, ← name, ← pieces.text_eq]
  · rw [ofParts, fits.leadingBlanks_text]
    rfl

/-- A name of a block can be carried by a header with either bracket. -/
theorem ofLine?_name {name : Text} (valid : isBlockName name = true) (bracket : Bracket)
    (index : Nat) :
    ∃ header, ofLine? (name ++ [' ', bracket.opening]) index = some header ∧
      header.name = name ∧ header.bracket = bracket := by
  have fits : (HeaderLine.mk [] name [' '] bracket []).Fits := ⟨rfl, valid, rfl, rfl⟩
  have found := fits.ofLine?_text index
  simp only [HeaderLine.text, List.nil_append, List.append_assoc, List.singleton_append] at found
  exact ⟨_, found, rfl, rfl⟩

/-- The name that a header carries is the name of a block. -/
theorem isBlockName_name {line : Text} {index : Nat} {header : BlockHeader}
    (found : ofLine? line index = some header) : isBlockName header.name = true := by
  obtain ⟨front, bracket, parts, rfl⟩ := (ofLine?_eq_some_iff line index header).mp found
  exact parts.isBlockName_trimEnd

/-- A text is the name of a block exactly if it is the name in the header that it
    makes up with a bracket. -/
theorem isBlockName_iff_header (name : Text) (index : Nat) :
    isBlockName name = true ↔
      ∃ header, ofLine? (name ++ [' ', '{']) index = some header ∧ header.name = name := by
  constructor
  · intro valid
    obtain ⟨header, found, named, _⟩ := ofLine?_name valid .curly index
    exact ⟨header, found, named⟩
  · rintro ⟨header, found, rfl⟩
    exact isBlockName_name found

end BlockHeader

/-! ## Names in settings -/

namespace Settings

/-- The names that valid settings list are names of blocks. -/
theorem isBlockName_of_listed {settings : Settings} (valid : settings.check = .ok ())
    {name : Text} (listed : name ∈ settings.textBlocks ∨ name ∈ settings.codeBlocks) :
    isBlockName name = true := by
  obtain ⟨text, code, _⟩ := settings.check_eq_ok_iff.mp valid
  rcases listed with inText | inCode
  · exact text.blockNames name inText
  · exact code.blockNames name inCode

/-- A name of a block that is not listed yet can be listed as a text block. -/
theorem check_cons_textBlock {settings : Settings} (valid : settings.check = .ok ())
    {name : Text} (named : isBlockName name = true) (new : name ∉ settings.textBlocks) :
    (Settings.mk (name :: settings.textBlocks) settings.codeBlocks).check = .ok () := by
  obtain ⟨text, code, within⟩ := settings.check_eq_ok_iff.mp valid
  refine (check_eq_ok_iff _).mpr ⟨(validNames_cons_iff _ _).mpr ⟨named, new, text⟩, code, ?_⟩
  intro other member
  exact List.mem_cons_of_mem name (within other member)

end Settings

namespace BlockHeader

/-- A line holds a header exactly if, trimmed, it ends with a bracket behind a
    name, and the name stands where the header says. The check of names agrees
    with this: names are those that a header can carry, valid settings list no
    others, and a name from a header can be listed in them. -/
theorem ofLine?_by_bracket (index : Nat) :
    (∀ line header, ofLine? line index = some header ↔
      ∃ front bracket, PartsHeader line front bracket ∧
        header = ofParts line front bracket index) ∧
    (∀ line front bracket, PartsHeader line front bracket →
      Text.slice? line (ofParts line front bracket index).nameRange.start.character
        (ofParts line front bracket index).nameRange.stop.character = some (Text.trimEnd front)) ∧
    (∀ name, isBlockName name = true ↔
      ∃ header, ofLine? (name ++ [' ', '{']) index = some header ∧ header.name = name) ∧
    (∀ (settings : Settings) (name : Text), settings.check = .ok () →
      name ∈ settings.textBlocks ∨ name ∈ settings.codeBlocks →
        ∃ header, ofLine? (name ++ [' ', '{']) index = some header ∧ header.name = name) ∧
    ∀ (line : Text) (header : BlockHeader) (settings : Settings),
      ofLine? line index = some header → settings.check = .ok () →
        header.name ∉ settings.textBlocks →
          (Settings.mk (header.name :: settings.textBlocks) settings.codeBlocks).check = .ok () := by
  refine ⟨?_, ?_, ?_, ?_, ?_⟩
  · intro line header
    exact ofLine?_eq_some_iff line index header
  · intro line front bracket parts
    exact slice?_ofParts parts index
  · intro name
    exact isBlockName_iff_header name index
  · intro settings name valid listed
    exact (isBlockName_iff_header name index).mp (Settings.isBlockName_of_listed valid listed)
  · intro line header settings found valid new
    exact Settings.check_cons_textBlock valid (isBlockName_name found) new

/-- A name that ends with a colon, right before its bracket. It is not listed in
    the settings for request files and can be, and one that is listed has a
    header. -/
theorem ofLine?_by_bracket_colon :
    ∃ header, ofLine? "\u3000a-é:[ ".toList 2 = some header ∧
      header = ⟨"a-é:".toList, Range.ofLength 2 3 5, .square⟩ ∧
      Text.slice? "\u3000a-é:[ ".toList 3 8 = some "a-é:".toList ∧
      Settings.standard.check = .ok () ∧
      (∃ other, ofLine? ("docs".toList ++ [' ', '{']) 2 = some other ∧
        other.name = "docs".toList) ∧
      (Settings.mk (header.name :: Settings.standard.textBlocks)
        Settings.standard.codeBlocks).check = .ok () := by
  obtain ⟨headers, spans, _, listed, accepted⟩ := ofLine?_by_bracket 2
  have named : (Text.trimEnd "a-é:".toList).all isNameChar = true := by decide
  have parts : PartsHeader "\u3000a-é:[ ".toList "a-é:".toList .square :=
    ⟨by decide, by decide,
      fun c member => (isNameChar_iff c).mp (List.all_eq_true.mp named c member)⟩
  have found := (headers _ _).mpr ⟨_, _, parts, rfl⟩
  have valid : Settings.standard.check = .ok () := rfl
  exact ⟨_, found, by decide, spans _ _ _ parts, valid, listed _ _ valid (by decide),
    accepted _ _ _ found valid (by decide)⟩

end BlockHeader

end BlockMarkup
