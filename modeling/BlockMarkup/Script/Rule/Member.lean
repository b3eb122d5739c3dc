import BlockMarkup.Script.Rule.Expression

/-!
# Rules for the members of objects and classes

A member has a name, which may be computed, and is a value, a method or a field.
Words such as `get` and `static` are marks of a member if another part of it
follows them and are its name otherwise. In a class, where a field may end at a
line break, such a word is a name at the end of a line.
-/

namespace BlockMarkup.Script.Rule

/-- Whether what follows the name of a member comes next. -/
def endsName (lexeme : Lexeme) : Bool :=
  match lexeme.kind with
  | .punctuator mark => ["(", ":", ",", closeBrace, "=", ";"].contains mark
  | .finish => true
  | _ => false

/-- Takes one of the words if it is there as a mark. -/
def passMark (ending : Ending) (words : List String) (stream : Stream) : Stream :=
  let next := stream.advance
  if stream.atAnyWord words && !endsName next.current &&
      !(ending == .statement && next.endsAtOnce) then
    next
  else
    stream

/-- Takes the marks of a method before its name that come after the first one. After
    the word `async` a line break changes nothing. -/
def passMethodMarks (ending : Ending) (stream : Stream) : Stream :=
  let afterAsync := passMark ending ["async"] stream
  let isAsync := afterAsync.offset != stream.offset
  let next := passMark (if isAsync then .bracket else ending) ["get", "set"] afterAsync
  if next.offset = afterAsync.offset then next.allow "*" else next

/-- Takes the words `static` and `get` if the second one ends its line and only white
    space stands between them. They mark a method together. -/
def passStaticGet (stream : Stream) : Stream :=
  let next := stream.advance
  if stream.atWord "static" && next.atWord "get" && next.commentNodes.isEmpty &&
      (next.current.rest.takeWhile isPlainSpace).contains '\n' then
    next.advance
  else
    stream

/-- Whether the current lexeme can be the name of a member. -/
def atName (stream : Stream) : Bool :=
  match stream.current.kind with
  | .word _ | .number | .string _ | .privateName => true
  | _ => false

/-- Reads the name of a member. Only a computed name has nodes. In a pattern an
    array may stand in place of a name. -/
def name (rules : Rules) (stream : Stream) : Outcome :=
  if stream.atMark "[" then
    let (inner, after) := rules (.elements "]") stream.advance
    (inner, after.expect "]")
  else if atName stream then ([], stream.advance)
  else ([], stream.damage)

/-- Reads a value after a mark that has been seen. In a pattern it may be
    spread. -/
def valueAfter (rules : Rules) (ending : Ending) (stream : Stream) : Outcome :=
  rules (.assignment ending) (stream.advance.allow "...")

/-- The node of a property that has the parts, the last of which are its value. It may
    belong to a pattern if the value does. -/
def propertyNode (start : Nat) (parts value : List Node) (stream : Stream) : Outcome :=
  let kind :=
    if value.any Node.needsPattern then .pattern
    else if value.all Node.isPattern then .assigned
    else .other
  ([stream.node kind start (parts ++ value)], stream)

/-- Reads a property of an object. A name may stand for itself, and a pattern may
    give it or another pattern a default. -/
def property (rules : Rules) (stream : Stream) : Outcome :=
  if stream.atMark "..." then
    let (value, after) := rules (.assignment .bracket) stream.advance
    ([after.node .spread stream.offset value], after)
  else if stream.atMark openBrace then rules (.assignment .bracket) stream
  else
    let (marks, start) := rules .decorators stream
    let marked := passMethodMarks .bracket (passMark .bracket ["static"] (passStaticGet start))
    let isMarked := marked.offset != start.offset
    let (named, afterName) := name rules marked
    let before := marks ++ named
    if afterName.atMark "(" then
      let (body, after) := rules.callable afterName
      ([after.node .other stream.offset (before ++ body)], after)
    else
      let fits := !isMarked && (afterName.atMark ":" || start.current.isWord ||
        (afterName.atMark "=" && start.atMark "["))
      let checked := if fits then afterName else afterName.damage
      if checked.atMark ":" then
        let (value, after) := valueAfter rules .bracket checked
        propertyNode stream.offset before value after
      else if checked.atMark "=" then
        let (value, after) := (valueAfter rules .bracket checked).asValue
        ([after.node .pattern stream.offset (before ++ value)], after)
      else
        propertyNode stream.offset before [] checked

/-- Reads the properties of an object up to its closing bracket. -/
def properties (rules : Rules) (stream : Stream) : Outcome :=
  if stream.atMark closeBrace || stream.atFinish then ([], stream)
  else if stream.atMark "," then rules .properties stream.advance
  else
    let (first, next) := property rules stream
    if next.atMark "," then
      let (more, after) := rules .properties next.advance
      (first ++ more, after)
    else
      (first, next)

/-- Reads a member of a class after its decorators. -/
def classMember (rules : Rules) (stream : Stream) : Outcome :=
  if stream.atWord "static" && stream.advance.atMark openBrace then
    rules.block stream.advance
  else
    let method := passStaticGet stream
    let start :=
      if method.offset = stream.offset then passMark .statement ["static"] stream else stream
    let marked :=
      if method.offset = stream.offset then passMethodMarks .statement start
      else passMethodMarks .bracket method
    let (named, afterName) := name rules marked
    let (value, after) :=
      if afterName.atMark "(" then rules.callable afterName
      else
        let checked := if marked.offset = start.offset then afterName else afterName.damage
        if checked.atMark "=" then
          let (inner, next) := valueAfter rules .statement checked
          (inner, next.endStatement)
        else
          ([], checked.endAtOnce)
    (named ++ value, after)

/-- Reads the members of a class up to its closing bracket. -/
def classMembers (rules : Rules) (stream : Stream) : Outcome :=
  if stream.atMark closeBrace || stream.atFinish then ([], stream)
  else if stream.atMark ";" then rules .classMembers stream.advance
  else
    let (marks, start) := rules .decorators stream
    let (first, next) := classMember rules start
    let progress := if next.offset = stream.offset then next.skip else next
    let (more, after) := rules .classMembers progress
    (marks ++ first ++ more, after)

/-- Reads the name of a decorator after its first word: members of it, each
    after a point. -/
def decoratorName : Nat → Node → Stream → Node × Stream
  | 0, base, stream => (base, stream)
  | budget + 1, base, stream =>
    if stream.atMark "." && stream.advance.current.isWord then
      let named := stream.advance
      let next := named.advance
      let property := (named.leaf .property).withRole .property
      decoratorName budget
        (next.node .member base.span.start [base.withRole .object, property]) next
    else
      (base, stream)

/-- Reads a decorator after its sign. It is a name or a call; anything else in
    parentheses is damage. -/
def decorator (rules : Rules) (stream : Stream) : Outcome :=
  if stream.atMark "(" then rules.parenthesized stream.damage
  else if stream.current.isWord then
    let (base, next) :=
      decoratorName stream.current.rest.length (stream.leaf .identifier) stream.advance
    if next.atMark "(" then
      let (made, after) := call rules base next
      ([made], after)
    else
      ([base], next)
  else
    ([], stream.damage)

/-- Reads decorators, as many as there are. -/
def decorators (rules : Rules) (stream : Stream) : Outcome :=
  if stream.atMark "@" then
    let (first, next) := decorator rules stream.advance
    let (more, after) := rules .decorators next
    (first ++ more, after)
  else
    ([], stream)

end BlockMarkup.Script.Rule
