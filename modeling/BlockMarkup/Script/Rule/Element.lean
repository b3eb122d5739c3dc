import BlockMarkup.Script.Goal

/-!
# Rules for elements

An element has a name, attributes, and contents up to the tag that closes it.
The contents are text in which only a curly bracket, which begins an
expression, and an angle bracket, which begins a tag, mean anything. A comment
in the manner of markup may stand between them. A string in a tag has no
escapes. The text of a tag is made of ordinary lexemes, but for its names, in
which hyphens may stand; its closing angle bracket is recognised by the
character alone, since what follows it is text again.
-/

namespace BlockMarkup.Script.Rule

/-- Whether the current lexeme begins with these characters. -/
def atText (stream : Stream) (text : Text) : Bool :=
  text.isPrefixOf stream.current.source

/-- Takes a number of ASCII characters off the current lexeme and what follows
    it. -/
def takeChars (stream : Stream) (count : Nat) : Stream :=
  stream.resume (stream.offset + count) (stream.current.source.drop count)

/-- Whether a character may stand in a name with hyphens. -/
def isHyphenatedPart (c : Char) : Bool :=
  c.isAlphanum || c == '_' || c == '$' || c == '-'

/-- Takes a word, or a name with hyphens. -/
def tagWord (stream : Stream) : Stream :=
  let hyphenated := stream.current.source.takeWhile isHyphenatedPart
  if stream.current.isWord then
    if hyphenated.contains '-' then takeChars stream hyphenated.length else stream.advance
  else
    stream.damage

/-- Takes the words of a name that are joined by the mark, as many as the budget
    allows. -/
def passTagWords (mark : String) : Nat → Stream → Stream
  | 0, stream => stream
  | budget + 1, stream =>
    if stream.atMark mark then passTagWords mark budget (tagWord stream.advance) else stream

/-- Takes the name of an attribute. Two words may be joined by a colon. -/
def attributeName (stream : Stream) : Stream :=
  passTagWords ":" 1 (tagWord stream)

/-- Takes the name of a tag, in which also any number of words may be joined by
    points. -/
def tagName (stream : Stream) : Stream :=
  let named := attributeName stream
  passTagWords "." named.current.source.length named

/-- Takes the name of a tag, which may be missing. -/
def tagNameOrNone (stream : Stream) : Stream :=
  if atText stream ['>'] then stream else tagName stream

/-- Reads an expression in curly brackets, which may be empty or spread. -/
def embedded (rules : Rules) (stream : Stream) : Outcome :=
  let start := stream.advance.allow "..."
  if start.atMark closeBrace then ([], start.advance)
  else
    let (inner, after) := rules (.expressions .bracket) start
    (inner, after.expect closeBrace)

/-- Takes a string without escapes. -/
def rawString (stream : Stream) : Stream :=
  match stream.current.source with
  | quote :: rest =>
    match splitBefore (· == quote) rest with
    | (body, _ :: after) => stream.resume (stream.offset + 2 + Text.size body) after
    | _ => stream.skip
  | [] => stream.damage

/-- Reads the value of an attribute. -/
def attributeValue (rules : Rules) (stream : Stream) : Outcome :=
  if stream.atMark openBrace then embedded rules stream
  else if atText stream ['"'] || atText stream ['\''] then ([], rawString stream)
  else if atText stream ['<'] then rules .element stream
  else ([], stream.damage)

/-- Reads the attributes of a tag up to its end. -/
def attributes (rules : Rules) (stream : Stream) : Outcome :=
  if stream.atMark openBrace then
    let (first, next) := embedded rules stream
    let (more, after) := rules .attributes next
    (first ++ more, after)
  else if stream.current.isWord then
    let named := attributeName stream
    let (first, next) :=
      if named.atMark "=" then attributeValue rules named.advance else ([], named)
    let (more, after) := rules .attributes next
    (first ++ more, after)
  else
    ([], stream)

/-- Takes the tag that closes an element, from its angle bracket on. -/
def closingTag (stream : Stream) : Stream :=
  let named := tagNameOrNone (takeChars stream 2)
  if atText named ['>'] then takeChars named 1 else named.damage

/-- Whether the text after an ampersand names a character: a number with a sharp sign,
    decimal or hexadecimal, or letters, and a semicolon. -/
def beginsCharacter (text : Text) : Bool :=
  let isEnded (digits : Text) (isDigit : Char → Bool) (limit : Nat) : Bool :=
    let (body, rest) := digits.span isDigit
    !body.isEmpty && body.length ≤ limit && rest.head? == some ';'
  match text with
  | '#' :: 'x' :: digits | '#' :: 'X' :: digits => isEnded digits isHexDigit 6
  | '#' :: digits => isEnded digits Char.isDigit 5
  | letters => isEnded letters Char.isAlpha 30

/-- Whether the text between tags is free of brackets that close and of ampersands
    that name no character. -/
def isContentText : Text → Bool
  | [] => true
  | '>' :: _ | '}' :: _ => false
  | '&' :: rest => beginsCharacter rest && isContentText rest
  | _ :: rest => isContentText rest

/-- Reads the contents of an element after its first tag, its last tag
    included. -/
def contents (rules : Rules) (stream : Stream) : Outcome :=
  let (text, rest) := splitBefore (fun c => c == '<' || c == '{') stream.lastRest
  let resumed := stream.resume (stream.lastStop + Text.size text) rest
  let next := if isContentText text then resumed else resumed.damage
  match rest with
  | [] => ([], next.damage)
  | '<' :: '/' :: _ => ([], closingTag next)
  | '<' :: '!' :: '-' :: '-' :: _ =>
    let (comment, after) := splitBefore isLineBreak rest
    rules .contents (next.resume (next.lastStop + Text.size comment) after)
  | '<' :: _ =>
    let (first, inner) := rules .element next
    let (more, after) := rules .contents inner
    (first ++ more, after)
  | _ =>
    let (first, inner) := embedded rules next
    let (more, after) := rules .contents inner
    (first ++ more, after)

/-- Reads an element from its angle bracket on. -/
def element (rules : Rules) (stream : Stream) : Outcome :=
  let named := tagNameOrNone (takeChars stream 1)
  let (given, tagEnd) := rules .attributes named
  if atText tagEnd ['/', '>'] then
    let after := takeChars tagEnd 2
    ([after.node .loose stream.offset given], after)
  else if atText tagEnd ['>'] then
    let (inner, after) := rules .contents (takeChars tagEnd 1)
    ([after.node .loose stream.offset (given ++ inner)], after)
  else
    ([tagEnd.node .damage stream.offset given], tagEnd.damage)

end BlockMarkup.Script.Rule
