import BlockMarkup.Script.Gap

/-!
# Semicolons that are left out

A statement ends with a semicolon, which may be left out before a closing curly
bracket, at the end of the script and at a line break. It is not left out at a
line break if the next line goes on with what stands before it: if it begins
with an operator, a point, a comma, an opening bracket or a backquote. Two plus
or minus signs and a point before a digit begin something new.

After an operand only a line break outside comments counts, and white space
beyond ASCII hides the line breaks behind it. Elsewhere, as after the word
`return`, a line comment and a block comment with a line break in it count as
line breaks themselves, even if the next line seems to go on. Only a comma and
an equals sign do go on there.
-/

namespace BlockMarkup.Script.Semicolon

/-- The marks at the start of a line that go on with the line before. -/
def joiningMarks : List Char := "`,:;*%><=[(?^|&/".toList

/-- Whether a text begins with a word of letters that ends there. -/
def beginsWithWord (word text : Text) : Bool :=
  word.isPrefixOf text && !((text.drop word.length).head?.map Char.isAlpha).getD false

/-- Whether a line that begins with the text goes on with the line before. -/
def joins : Text → Bool
  | [] => false
  | '.' :: rest => !(rest.head?.map Char.isDigit).getD false
  | '+' :: rest => rest.head? != some '+'
  | '-' :: rest => rest.head? != some '-'
  | '!' :: rest => rest.head? == some '='
  | c :: rest =>
    joiningMarks.contains c || beginsWithWord "in".toList (c :: rest) ||
      beginsWithWord "instanceof".toList (c :: rest)

/-- The line comment that begins the text, a carriage return being part of it. -/
def lineComment? : Text → Option Text
  | '/' :: '/' :: rest => some ('/' :: '/' :: rest.takeWhile fun c => !isLineBreak c)
  | _ => none

/-- The text after white space of ASCII and comments, the first `skip` characters
    being part of a comment. There is none if a slash begins no comment. -/
def afterBlank? : Text → Nat → Option Text
  | [], _ => some []
  | _ :: rest, skip + 1 => afterBlank? rest skip
  | c :: rest, 0 =>
    if isPlainSpace c then afterBlank? rest 0
    else if c = '/' then
      match (lineComment? (c :: rest)).or (comment? (c :: rest)) with
      | some comment => afterBlank? rest (comment.length - 1)
      | none => none
    else some (c :: rest)

/-- Whether the text after a line break begins something new. -/
def beginsAnew (text : Text) : Bool :=
  match afterBlank? text 0 with
  | some line => !joins line
  | none => false

/-- A run of line comments and the first block comment after them. -/
structure CommentRun where
  /-- Whether there is a line break in or after a comment of the run. -/
  breaks : Bool
  /-- The number of characters in the run. -/
  length : Nat
  /-- What stands after the run. -/
  rest : Text

/-- The run with a number of characters in front of it. -/
def CommentRun.longer (run : CommentRun) (count : Nat) : CommentRun :=
  { run with length := count + run.length }

/-- The run of comments at the start of the text, the first `skip` characters
    being part of a comment. It ends after a block comment unless a slash follows
    at once, and before anything that is neither a comment nor white space. -/
def commentRun? : Bool → Text → Nat → Option CommentRun
  | _, [], _ => some ⟨true, 0, []⟩
  | breaks, _ :: rest, skip + 1 => (commentRun? breaks rest skip).map (·.longer 1)
  | breaks, c :: rest, 0 =>
    if isPlainSpace c then (commentRun? breaks rest 0).map (·.longer 1)
    else if c = '/' then
      match lineComment? (c :: rest), comment? (c :: rest) with
      | some comment, _ => (commentRun? breaks rest (comment.length - 1)).map (·.longer 1)
      | none, some comment =>
        let broken := breaks || comment.any isLineBreak
        let after := rest.drop (comment.length - 1)
        if after.head? = some '/' then
          (commentRun? broken rest (comment.length - 1)).map (·.longer 1)
        else some ⟨broken, comment.length, after⟩
      | none, none => none
    else some ⟨true, 0, c :: rest⟩

/-- Whether a run of comments ends a statement by itself. -/
def CommentRun.ends (run : CommentRun) : Bool :=
  run.breaks && run.rest.head? != some ',' && run.rest.head? != some '='

/-- Whether a semicolon is left out somewhere before the next lexeme or before
    the comments that cannot be looked past. The first `skip` characters have
    been looked past. -/
def isOmittedNearby (afterOperand : Bool) : Text → Nat → Bool
  | [], _ => true
  | _ :: rest, skip + 1 => isOmittedNearby afterOperand rest skip
  | c :: rest, 0 =>
    if c = '/' then
      match commentRun? false (c :: rest) 0 with
      | some run =>
        (!afterOperand && run.ends) ||
          (!run.rest.isEmpty && isOmittedNearby afterOperand rest (run.length - 1))
      | none => false
    else if c = '}' then true
    else if isLineBreak c then beginsAnew rest
    else isPlainSpace c && isOmittedNearby afterOperand rest 0

/-- Where a semicolon is left out before the next lexeme: the number of characters
    before that place, `passed` having been counted before. The text is looked at
    afresh after each comment; its first `skip` characters belong to a comment. -/
def omissionFrom? (afterOperand : Bool) : Bool → Nat → Text → Nat → Option Nat
  | fresh, passed, [], _ => if fresh then some passed else none
  | fresh, passed, _ :: rest, skip + 1 => omissionFrom? afterOperand fresh (passed + 1) rest skip
  | fresh, passed, c :: rest, 0 =>
    if fresh && isOmittedNearby afterOperand (c :: rest) 0 then some passed
    else
      match comment? (c :: rest) with
      | some comment =>
        omissionFrom? afterOperand true (passed + 1) rest (comment.length - 1)
      | none =>
        if isScriptSpace c then omissionFrom? afterOperand false (passed + 1) rest 0 else none

/-- Where a semicolon is left out before the next lexeme of the text, which comes
    after an operand or after something else. -/
def omission? (afterOperand : Bool) (text : Text) : Option Nat :=
  omissionFrom? afterOperand true 0 text 0

/-- Whether a semicolon is left out at the start of the text. -/
def isOmitted (afterOperand : Bool) (text : Text) : Bool :=
  (omission? afterOperand text).isSome

end BlockMarkup.Script.Semicolon
