import BlockMarkup.Script.Lexeme
import BlockMarkup.Script.Semicolon

/-!
# Streams of lexemes

A stream stands at a lexeme of a script that has not been taken yet. It knows
where the last taken lexeme ended, and whether anything has been met that fits
no rule.

When a lexeme is taken, what follows it is looked at as if no operator could
stand there. Whoever knows that an operand has ended says so, and the lexeme
after it is looked at once more.

Nodes are built from where they began to where the last taken lexeme ended. They are
named. Of the punctuators only the brackets and commas of arrays and argument lists
become nodes, and these are anonymous.
-/

namespace BlockMarkup.Script

/-- A place in a script. -/
structure Stream where
  current : Lexeme
  lastStop : Nat
  lastRest : Text
  damaged : Bool

/-- Whether a lexeme is a word. -/
def Lexeme.isWord (lexeme : Lexeme) : Bool :=
  match lexeme.kind with
  | .word _ => true
  | _ => false

/-- Whether a lexeme is a string. -/
def Lexeme.isString (lexeme : Lexeme) : Bool :=
  match lexeme.kind with
  | .string _ => true
  | _ => false

namespace Stream

/-- The stream that stands at the first lexeme after a byte offset, where no
    operator may stand. -/
def resume (stream : Stream) (offset : Nat) (rest : Text) : Stream :=
  { stream with current := Lexeme.after false offset rest, lastStop := offset, lastRest := rest }

/-- The stream at the start of a script. A first line that names an interpreter
    is passed over; only white space and comments may stand before it. -/
def ofText (source : Text) : Stream :=
  let gap := gapAfter false 0 source
  match gap.text with
  | '#' :: '!' :: _ =>
    let (line, rest) := splitBefore (· == '\n') gap.text
    start (gap.offset + Text.size line) rest
  | _ => start 0 source
where
  /-- The stream from a byte offset on. -/
  start (offset : Nat) (text : Text) : Stream :=
    ⟨Lexeme.after false offset text, offset, text, false⟩

/-- Takes the current lexeme. A flaw in it is damage. -/
def advance (stream : Stream) : Stream :=
  { stream.resume stream.current.span.stop stream.current.rest with
    damaged := stream.damaged || stream.current.isFlawed }

/-- The stream when an operand has ended with the last taken lexeme. Comments in
    the manner of markup after it turn out to be operators. -/
def afterOperand (stream : Stream) : Stream :=
  if stream.current.comments.any fun comment => comment.kind == .markup then
    { stream with current := Lexeme.after true stream.lastStop stream.lastRest }
  else
    stream

/-- The stream when the operand before the current lexeme has turned out to end a
    statement. Operators after it turn out to be comments in the manner of
    markup. -/
def afterStatement (stream : Stream) : Stream :=
  if beginsMarkup stream.current.source then stream.resume stream.lastStop stream.lastRest
  else stream

/-- The stream when an operand has ended with a block. If a semicolon is left out
    there, the comments before that place belong to the block. -/
def afterBlock (stream : Stream) : Stream :=
  match Semicolon.omission? true stream.lastRest with
  | some (passed + 1) =>
    let (comments, rest) := stream.lastRest.splitAt (passed + 1)
    stream.resume (stream.lastStop + Text.size comments) rest
  | _ => stream

/-- The lexeme after the current one, with which an operand may end. -/
def following (stream : Stream) : Lexeme :=
  stream.advance.afterOperand.current

/-- Where the current lexeme begins. -/
def offset (stream : Stream) : Nat := stream.current.span.start

/-- Notes that something fits no rule. -/
def damage (stream : Stream) : Stream := { stream with damaged := true }

/-- Takes a lexeme that fits no rule. -/
def skip (stream : Stream) : Stream := stream.advance.damage

/-- Whether the script has ended. -/
def atFinish (stream : Stream) : Bool := stream.current.kind == .finish

/-- Whether the current lexeme is the punctuator. -/
def atMark (stream : Stream) (punctuator : String) : Bool :=
  stream.current.kind == .punctuator punctuator

/-- Whether the current lexeme is one of the punctuators. -/
def atAny (stream : Stream) (punctuators : List String) : Bool :=
  punctuators.any stream.atMark

/-- Whether the current lexeme is the word. -/
def atWord (stream : Stream) (word : String) : Bool :=
  stream.current.kind == .word word

/-- Whether the current lexeme is one of the words. -/
def atAnyWord (stream : Stream) (words : List String) : Bool :=
  words.any stream.atWord

/-- Takes the punctuator, or notes that it is missing. -/
def expect (stream : Stream) (punctuator : String) : Stream :=
  if stream.atMark punctuator then stream.advance else stream.damage

/-- Takes the word, or notes that it is missing. -/
def expectWord (stream : Stream) (word : String) : Stream :=
  if stream.atWord word then stream.advance else stream.damage

/-- Takes the punctuator if it is there. -/
def allow (stream : Stream) (punctuator : String) : Stream :=
  if stream.atMark punctuator then stream.advance else stream

/-- Takes the current lexeme if it is a word. -/
def allowWord (stream : Stream) : Stream :=
  if stream.current.isWord then stream.advance else stream

/-- Whether a semicolon is left out before the current lexeme, which stands after
    an operand. -/
def endsAtBreak (stream : Stream) : Bool :=
  Semicolon.isOmitted true stream.lastRest

/-- Whether a semicolon is left out before the current lexeme, which does not
    stand after an operand. -/
def endsAtOnce (stream : Stream) : Bool :=
  Semicolon.isOmitted false stream.lastRest

/-- Ends a statement after an operand, where a semicolon is left out or with one. It
    may be left out even if one follows. -/
def endStatement (stream : Stream) : Stream :=
  if stream.endsAtBreak then stream.afterStatement else stream.expect ";"

/-- Ends a statement whose last part is no operand. -/
def endAtOnce (stream : Stream) : Stream :=
  if stream.endsAtOnce then stream.afterStatement else stream.expect ";"

/-- The stream after a place where a semicolon may be left out but need not be there.
    A comment in the manner of markup begins only where one is left out. -/
def afterOptionalEnd (stream : Stream) (isLeftOut : Bool) : Stream :=
  if isLeftOut then stream else stream.afterOperand

/-- A named node from an offset to the end of the last taken lexeme. -/
def node (stream : Stream) (kind : NodeKind) (start : Nat) (children : List Node) : Node :=
  .mk kind true .plain ⟨start, stream.lastStop⟩ children

/-- A named node for the current lexeme. -/
def leaf (stream : Stream) (kind : NodeKind) : Node :=
  .mk kind true .plain stream.current.span []

/-- An anonymous node for the current lexeme. -/
def mark (stream : Stream) : Node :=
  .mk .other false .plain stream.current.span []

/-- The comments before the current lexeme as nodes. -/
def commentNodes (stream : Stream) : List Node := stream.current.comments

end Stream

end BlockMarkup.Script
