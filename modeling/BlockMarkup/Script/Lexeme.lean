import BlockMarkup.Script.Literal

/-!
# Lexemes of JavaScript

A lexeme is a word, a number, a string, a private name or a punctuator,
together with the comments before it. It also keeps the script from its first
character on and from its end on, so that a reader who knows better can take it
again as something else. A slash may begin a regular expression, an angle
bracket an element, and a backquote begins a template whose parts are read one
by one.
-/

namespace BlockMarkup.Script

/-- The sort of a lexeme. The end of the script is a lexeme too, and a character
    that begins nothing is stray. -/
inductive LexemeKind where
  | word (text : String)
  | privateName
  | number
  | string (escapes : List Span)
  | punctuator (text : String)
  | stray
  | finish
deriving DecidableEq

/-- A lexeme with the comments before it and the script from both its ends on. It may
    have wide white space right before it, and it is flawed if it is a string in
    which a backslash begins no escape. -/
structure Lexeme where
  kind : LexemeKind
  span : Span
  comments : List Node
  source : Text
  rest : Text
  isAfterWide : Bool
  isFlawed : Bool

/-- The opening curly bracket, given by its code point. -/
abbrev openBrace : String := "\x7b"

/-- The closing curly bracket, given by its code point. -/
abbrev closeBrace : String := "\x7d"

/-- The punctuators, those that begin another after it. -/
def punctuators : List Text :=
  [">>>=", "...", "===", "!==", "**=", "<<=", ">>=", ">>>", "&&=", "||=", "??=", "=>", "==", "!=",
    "<=", ">=", "&&", "||", "??", "?.", "++", "--", "+=", "-=", "*=", "/=", "%=", "&=", "|=", "^=",
    "<<", ">>", "**", openBrace, closeBrace, "(", ")", "[", "]", ";", ",", "<", ">", "+", "-", "*",
    "/", "%", "&", "|", "^", "!", "~", "?", ":", "=", ".", "@", "`"].map String.toList

/-- Whether the punctuator begins the text. A question mark and a point before a
    digit are two punctuators. -/
def beginsWith (text punctuator : Text) : Bool :=
  punctuator.isPrefixOf text &&
    !(punctuator == ['?', '.'] && ((text[2]?).map Char.isDigit).getD false)

/-- The lexeme of a kind that takes `taken` characters in front of `rest`. -/
def Gap.lexeme (gap : Gap) (kind : LexemeKind) (taken rest : Text) : Lexeme :=
  { kind := kind
    span := Span.ofLength gap.offset (Text.size taken)
    comments := gap.comments
    source := gap.text
    rest := rest
    isAfterWide := gap.isWide
    isFlawed := false }

/-- The lexeme that begins right after the gap. -/
def Gap.next (gap : Gap) : Lexeme :=
  match gap.text with
  | [] => gap.lexeme .finish [] []
  | c :: rest =>
    let (word, afterWord) := takeWord gap.text
    if !word.isEmpty && !c.isDigit then
      gap.lexeme (.word (String.ofList word)) word afterWord
    else if c.isDigit || (c == '.' && (rest.head?.map Char.isDigit).getD false) then
      let (number, after) := takeNumber gap.text
      gap.lexeme .number number after
    else if c == '"' || c == '\'' then
      match takeString c .line rest 0 1 with
      | some taken =>
        let spans := taken.escapes.map fun escape => Span.ofLength (gap.offset + escape) 2
        { gap.lexeme (.string spans) (c :: taken.body) taken.rest with isFlawed := taken.isFlawed }
      | none => gap.lexeme .stray [c] rest
    else if c == '#' then
      match takeWord rest with
      | ([], _) => gap.lexeme .stray [c] rest
      | (name, after) => gap.lexeme .privateName (c :: name) after
    else
      match punctuators.find? (beginsWith gap.text) with
      | some found =>
        gap.lexeme (.punctuator (String.ofList found)) found (gap.text.drop found.length)
      | none => gap.lexeme .stray [c] rest

/-- The next lexeme of a script from a byte offset on. -/
def Lexeme.after (afterOperand : Bool) (offset : Nat) (text : Text) : Lexeme :=
  (gapAfter afterOperand offset text).next

end BlockMarkup.Script
