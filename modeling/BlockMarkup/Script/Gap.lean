import BlockMarkup.Script.Node
import BlockMarkup.Text.Measure

/-!
# What stands between lexemes

Between two lexemes of JavaScript there may be white space and comments. A line
comment ends at a carriage return too, but only a line feed or a line or
paragraph separator is a line break. A comment in the manner of markup begins
with `<!--` or `-->` and reaches to the end of the line. It is one only where no
operator may stand, since after an operand the same characters are operators, and
only if no wide white space comes right before it. Line and paragraph separators
are not wide in this sense.

A gap remembers the comments in it as nodes. Only the comments of the language
itself count as comments there; one in the manner of markup is an argument like any
other where arguments stand.
-/

namespace BlockMarkup.Script

/-- Whether a character breaks a line. -/
def isLineBreak (c : Char) : Bool :=
  c == '\n' || c.toNat == 0x2028 || c.toNat == 0x2029

/-- Whether a character ends a line comment. -/
def endsLineComment (c : Char) : Bool :=
  c == '\r' || isLineBreak c

/-- The white space between lexemes beyond ASCII, as inclusive ranges: the space
    separators, the line and paragraph separators, and three characters without
    width. -/
def wideSpaceRanges : List (Nat × Nat) :=
  [(0xA0, 0xA0), (0x1680, 0x1680), (0x2000, 0x200B), (0x2028, 0x2029), (0x202F, 0x202F),
    (0x205F, 0x2060), (0x3000, 0x3000), (0xFEFF, 0xFEFF)]

/-- Whether a character is white space of ASCII. -/
def isPlainSpace (c : Char) : Bool :=
  c == ' ' || (0x09 ≤ c.toNat && c.toNat ≤ 0x0D)

/-- Whether a character is white space between lexemes. -/
def isScriptSpace (c : Char) : Bool :=
  isPlainSpace c || wideSpaceRanges.any fun (low, high) => low ≤ c.toNat && c.toNat ≤ high

/-- Whether a character is wide white space. -/
def isWideSpace (c : Char) : Bool :=
  isScriptSpace c && !isPlainSpace c && !isLineBreak c

/-- The part of a script up to a character that satisfies the condition, and the
    rest. -/
def splitBefore (ends : Char → Bool) (text : Text) : Text × Text :=
  text.span fun c => !ends c

/-- The text of a block comment after its opening up to and including its end. -/
def blockComment? : Text → Option Text
  | [] => none
  | '*' :: '/' :: _ => some ['*', '/']
  | c :: rest => (blockComment? rest).map (c :: ·)

/-- The comment that begins the text. A block comment that has no end is none. -/
def comment? : Text → Option Text
  | '/' :: '/' :: rest => some ('/' :: '/' :: rest.takeWhile fun c => !endsLineComment c)
  | '/' :: '*' :: rest => (blockComment? rest).map fun body => '/' :: '*' :: body
  | _ => none

/-- The characters that begin a comment in the manner of markup. -/
def markupMarks : List Text := ["<!--".toList, "-->".toList]

/-- Whether a comment in the manner of markup begins the text. -/
def beginsMarkup (text : Text) : Bool :=
  markupMarks.any fun mark => mark.isPrefixOf text

/-- The comment in the manner of markup that begins the text. -/
def markupComment? (text : Text) : Option Text :=
  if beginsMarkup text then some (text.takeWhile fun c => !isLineBreak c) else none

/-- What has been passed since the last lexeme, up to a place in a script, and whether
    there is wide white space right before that place. -/
structure Gap where
  offset : Nat
  text : Text
  comments : List Node
  isWide : Bool

namespace Gap

/-- Passes over some characters. -/
def pass (gap : Gap) (passed : Text) : Gap :=
  { gap with
    offset := gap.offset + Text.size passed
    text := gap.text.drop passed.length }

/-- Passes over a character of white space. -/
def passSpace (gap : Gap) (c : Char) : Gap :=
  { gap.pass [c] with isWide := gap.isWide || isWideSpace c }

/-- Passes over a comment, which becomes a node of the kind. -/
def passComment (gap : Gap) (kind : NodeKind) (comment : Text) : Gap :=
  let node := Node.mk kind true .plain (Span.ofLength gap.offset (Text.size comment)) []
  { gap.pass comment with comments := gap.comments ++ [node], isWide := false }

/-- Passes over white space and comments of the text, the first `skip` characters
    of which belong to a comment that has been passed. After an operand there are
    no comments in the manner of markup. -/
def passAll (afterOperand : Bool) : Text → Nat → Gap → Gap
  | [], _, gap => gap
  | _ :: rest, skip + 1, gap => passAll afterOperand rest skip gap
  | c :: rest, 0, gap =>
    match comment? (c :: rest) with
    | some comment =>
      passAll afterOperand rest (comment.length - 1) (gap.passComment .comment comment)
    | none =>
      if isScriptSpace c then passAll afterOperand rest 0 (gap.passSpace c)
      else if afterOperand || gap.isWide then gap
      else
        match markupComment? (c :: rest) with
        | some comment =>
          passAll afterOperand rest (comment.length - 1) (gap.passComment .markup comment)
        | none => gap

end Gap

/-- The gap that begins at a byte offset of a script, from which on the script is
    given. -/
def gapAfter (afterOperand : Bool) (offset : Nat) (text : Text) : Gap :=
  Gap.passAll afterOperand text 0 ⟨offset, text, [], false⟩

end BlockMarkup.Script
