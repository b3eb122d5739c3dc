import BlockMarkup.Document
import BlockMarkup.Proofs.Document.WholeLines

/-!
# The one lossless split of a text

`Line.joined` forgets where one line ends and the next begins, so many lists of
lines join to the same text. Four rules leave one of them: no line feed stands
in a content, the last line and no other is without a break, and a content in
front of a bare line feed does not end with a carriage return, which would be
part of the break. The index of a document is that list, and every list that
keeps the rules is the index of the text it joins to.

The last rule is the one that tells a line feed from a pair. Without it a
carriage return at the end of a content could be read either way.
-/

namespace BlockMarkup

namespace Line

open Text

/-- The rules that a list of lines keeps if no break can be found in it but
    those that end its lines. -/
structure KeepsRules (lines : List Line) : Prop where
  noFeed : ∀ line ∈ lines, '\n' ∉ line.content
  openAtEnd : ∀ index line, lines[index]? = some line →
    (line.ending = none ↔ index + 1 = lines.length)
  noReturn : ∀ line ∈ lines, line.ending = some .lf → line.content.getLast? ≠ some '\r'

/-- Only a bare line feed can be parted from a carriage return before it. -/
theorem splitsBreak_text_iff (content : Text) (lineBreak : LineBreak) :
    SplitsBreak content lineBreak.text ↔ lineBreak = .lf ∧ content.getLast? = some '\r' := by
  cases lineBreak with
  | lf => simp [SplitsBreak, LineBreak.text]
  | crlf => simp [SplitsBreak, LineBreak.text]

/-- Whole lines and a last one without a break keep the rules. -/
theorem keepsRules_append_last {front : List Line} {last : Text}
    (whole : ∀ line ∈ front, line.IsWhole) (noFeed : '\n' ∉ last) :
    KeepsRules (front ++ [⟨last, none⟩]) where
  noFeed := by
    intro line member
    rcases List.mem_append.mp member with early | final
    · exact (whole line early).noFeed
    · rw [List.mem_singleton.mp final]
      exact noFeed
  openAtEnd := by
    intro index line found
    rw [List.length_append, List.length_singleton, Nat.add_right_cancel_iff]
    rcases Nat.lt_or_ge index front.length with early | behind
    · rw [List.getElem?_append_left early] at found
      obtain ⟨_, lineBreak, ended, _⟩ := whole line (List.mem_of_getElem? found)
      simp only [ended, reduceCtorEq, false_iff]
      omega
    · rw [List.getElem?_append_right behind] at found
      obtain ⟨final, rfl⟩ := List.getElem?_eq_some_iff.mp found
      rw [List.length_singleton] at final
      simp only [List.getElem_singleton, true_iff]
      omega
  noReturn := by
    intro line member feed carriage
    rcases List.mem_append.mp member with early | final
    · obtain ⟨_, lineBreak, ended, parted⟩ := whole line early
      obtain rfl : lineBreak = .lf := Option.some.inj (ended.symm.trans feed)
      exact parted ((splitsBreak_text_iff _ _).mpr ⟨rfl, carriage⟩)
    · rw [List.mem_singleton.mp final] at feed
      cases feed

/-- Lines that keep the rules are whole, all but a last one without a break. -/
theorem KeepsRules.parts {lines : List Line} (rules : KeepsRules lines) (filled : lines ≠ []) :
    ∃ front last, lines = front ++ [⟨last, none⟩] ∧ (∀ line ∈ front, line.IsWhole) ∧
      '\n' ∉ last := by
  obtain ⟨front, final, made⟩ := (List.eq_nil_or_concat lines).resolve_left filled
  obtain rfl : lines = front ++ [final] := made.trans List.concat_eq_append
  have length : (front ++ [final]).length = front.length + 1 := by simp
  have here : (front ++ [final])[front.length]? = some final := by simp
  have unended : final.ending = none := (rules.openAtEnd _ _ here).mpr length.symm
  obtain ⟨last, ending⟩ := final
  obtain rfl : ending = none := unended
  refine ⟨front, last, rfl, ?_, rules.noFeed _ (List.mem_append_right _ List.mem_cons_self)⟩
  intro line early
  have member : line ∈ front ++ [⟨last, none⟩] := List.mem_append_left _ early
  obtain ⟨index, bound, rfl⟩ := List.mem_iff_getElem.mp early
  have found : (front ++ [⟨last, none⟩])[index]? = some front[index] := by
    rw [List.getElem?_append_left bound, List.getElem?_eq_getElem bound]
  -- A line before the last one has a break, since its index is not the last.
  cases ended : front[index].ending with
  | none =>
    have atEnd := (rules.openAtEnd _ _ found).mp ended
    omega
  | some lineBreak =>
    refine ⟨rules.noFeed _ member, lineBreak, ended, ?_⟩
    rw [splitsBreak_text_iff]
    rintro ⟨rfl, carriage⟩
    exact rules.noReturn _ member ended carriage

end Line

/-- The lines of a document are the one list of lines that joins to its text and
    keeps the rules. -/
theorem Document.lines_ofText_eq_iff (text : Text) (lines : List Line) :
    (ofText text).lines = lines ↔
      lines ≠ [] ∧ Line.joined lines = text ∧ Line.KeepsRules lines := by
  constructor
  · rintro rfl
    obtain ⟨front, last, parts, whole, noFeed⟩ := Line.split_parts text
    have rules := Line.keepsRules_append_last whole noFeed
    rw [← parts] at rules
    exact ⟨Line.split_ne_nil text, Line.joined_split text, rules⟩
  · rintro ⟨filled, rfl, rules⟩
    obtain ⟨front, last, rfl, whole, noFeed⟩ := rules.parts filled
    have made : Line.joined (front ++ [⟨last, none⟩]) = Line.joined front ++ last := by
      simp [Line.text, Line.breakText]
    have split := Line.split_joined_append whole last
    rw [Line.split_of_noFeed noFeed, ← made] at split
    exact split

/-- Of two carriage returns before a line feed only the second belongs to the
    break, and one that no line feed follows belongs to none. -/
example : (Document.ofText "a\r\r\n\nb\r".toList).lines =
    [⟨"a\r".toList, some .crlf⟩, ⟨[], some .lf⟩, ⟨"b\r".toList, none⟩] := by
  decide

end BlockMarkup
