import BlockMarkup.Script.Goal

/-!
# Rules for expressions

An expression is a row of operands with operators between them. An operand is a
primary expression with its suffixes: members, subscripts, argument lists and
templates. A call is an operand whose last suffix is an argument list or a
template. What follows `new` takes members and templates first, so its argument
list makes no call of it.

Where an operand is expected, a slash begins a regular expression and an angle
bracket an element; after an operand both are operators. An arrow turns what
stands before it into the parameters of a function.
-/

namespace BlockMarkup.Script.Rule

/-- The operators that change the value of what stands before them. -/
def changingOperators : List String :=
  ["+=", "-=", "*=", "/=", "%=", "**=", "<<=", ">>=", ">>>=", "&=", "|=", "^=", "&&=", "||=", "??="]

/-- The operators between two operands. -/
def binaryOperators : List String :=
  ["+", "-", "*", "/", "%", "**", "==", "!=", "===", "!==", "<", ">", "<=", ">=", "<<", ">>", ">>>",
    "&", "|", "^", "&&", "||", "??", "="] ++ changingOperators

/-- The words between two operands. -/
def binaryWords : List String := ["in", "instanceof"]

/-- The operators before an operand. -/
def unaryOperators : List String := ["!", "~", "+", "-", "++", "--"]

/-- The words before an operand. -/
def unaryWords : List String := ["typeof", "void", "delete", "await"]

/-- The words that are values by themselves. -/
def valueWords : List String := ["this", "super", "true", "false", "null"]

/-- The marks that go on with an expression and begin none. -/
def continuingMarks : List String :=
  [".", "?.", "=>", "*", "%", "**", "==", "!=", "===", "!==", ">", "<=", ">=", "<<", ">>", ">>>",
    "&", "|", "^", "&&", "||", "??", "?", "=", "+=", "-=", "*=", "%=", "**=", "<<=", ">>=", ">>>=",
    "&=", "|=", "^=", "&&=", "||=", "??="]

/-- Whether what stands here goes on with an expression and begins none. -/
def continuesExpression (stream : Stream) : Bool :=
  stream.atAny continuingMarks || stream.atAnyWord binaryWords

/-- Whether no expression begins here, any word being able to begin one. -/
def beginsNone (stream : Stream) : Bool :=
  stream.atFinish || stream.atAny [")", "]", closeBrace, ",", ";", ":"] ||
    stream.atAny continuingMarks

/-- Takes the body of a regular expression after its first slash, up to and
    including its last. A slash in a class or after a backslash is none. -/
def takeRegex : Bool → Text → Option (Text × Text)
  | _, [] => none
  | inClass, '\\' :: c :: rest =>
    if c = '\n' then none
    else (takeRegex inClass rest).map fun (body, after) => ('\\' :: c :: body, after)
  | inClass, c :: rest =>
    if c = '\n' then none
    else if c = '/' && !inClass then some ([c], rest)
    else
      (takeRegex (c = '[' || (inClass && c != ']')) rest).map fun (body, after) =>
        (c :: body, after)

/-- Whether a character may be a flag of a regular expression. -/
def isFlag (c : Char) : Bool := 'a' ≤ c && c ≤ 'z'

/-- Whether the current lexeme is made of flags and stands right after a comment. -/
def atFlags (stream : Stream) : Bool :=
  match stream.current.kind, stream.commentNodes.getLast? with
  | .word flags, some comment =>
    flags.toList.all isFlag && comment.kind == .comment && comment.span.stop == stream.offset
  | _, _ => false

/-- Reads a regular expression whose first slash is the current lexeme's first
    character. Its flags stand right after the last slash or after a comment. -/
def regex (ending : Ending) (stream : Stream) : Node × Stream :=
  match takeRegex false stream.current.source.tail with
  | some (body, after) =>
    let (flags, rest) := after.span isFlag
    let taken := stream.resume (stream.offset + 1 + Text.size body + Text.size flags) rest
    let hasFlags := flags.isEmpty && !ending.isReached taken && atFlags taken
    let next := if hasFlags then taken.advance else taken
    (next.node .other stream.offset [], next)
  | none => (stream.leaf .damage, stream.skip)

/-- Reads the parts of a template after its opening backquote, up to and
    including the closing one. The last part is told by there being none after
    it. -/
def templateParts (rules : Rules) (stream : Stream) : Outcome :=
  match stream.lastRest with
  | [] => ([], stream.damage)
  | '`' :: rest => ([], stream.resume (stream.lastStop + 1) rest)
  | '\\' :: rest =>
    match escape? ('\\' :: rest) with
    | some length =>
      let (escaped, more) := rest.splitAt (length - 1)
      let next := stream.resume (stream.lastStop + 1 + Text.size escaped) more
      let (parts, after) := rules .templateParts next
      (next.node .escape stream.lastStop [] :: parts, after)
    | none => rules .templateParts (stream.damage.resume (stream.lastStop + 1) rest)
  | '$' :: '{' :: rest =>
    let (inner, afterInner) :=
      rules (.expressions .bracket) (stream.resume (stream.lastStop + 2) rest)
    let closed := afterInner.expect closeBrace
    let (parts, after) := rules .templateParts closed
    (closed.node .substitution stream.lastStop inner :: parts, after)
  | text =>
    let chunk := text.take 1 ++ (text.drop 1).takeWhile fun c => c != '`' && c != '\\' && c != '$'
    rules .templateParts
      (stream.resume (stream.lastStop + Text.size chunk) (text.drop chunk.length))

/-- Reads a template from its opening backquote on. -/
def template (rules : Rules) (stream : Stream) : Node × Stream :=
  let (parts, after) := rules .templateParts stream.advance
  (after.node .template stream.offset parts, after)

/-- The nodes of a list from its opening bracket on: the bracket, the items, and the
    closing bracket if it is there. -/
def listNodes (close : String) (stream : Stream) (items : List Node) (inner : Stream) : List Node :=
  stream.mark :: items ++ if inner.atMark close then [inner.mark] else []

/-- Reads an argument list. It is whole if its closing parenthesis is there. -/
def argumentList (rules : Rules) (stream : Stream) : Node × Bool × Stream :=
  let (items, inner) := rules (.elements ")") stream.advance
  let whole := inner.atMark ")"
  let closed := inner.expect ")"
  (closed.node .arguments stream.offset (listNodes ")" stream items inner), whole, closed)

/-- Notes it if an argument must be a pattern. -/
def checkArguments (arguments : Node) (stream : Stream) : Stream :=
  if arguments.namedChildren.any Node.needsPattern then stream.damage else stream

/-- The node of a call, or of damage if the argument list is not whole. -/
def callNode (base arguments : Node) (whole : Bool) (stream : Stream) : Node :=
  stream.node (if whole then .call else .damage) base.span.start
    [base.withRole .function, arguments.withRole .arguments]

/-- Reads what is called and its argument list as a call. -/
def call (rules : Rules) (base : Node) (stream : Stream) : Node × Stream :=
  let (arguments, whole, closed) := argumentList rules stream
  (callNode base arguments whole closed, checkArguments arguments closed)

/-- Reads the name of a member. A private name makes no plain member. -/
def memberName (base : Node) (stream : Stream) : Node × Stream :=
  let name := stream.leaf (if stream.current.isWord then .property else .other)
  if stream.current.isWord || stream.current.kind == .privateName then
    let next := stream.advance
    (next.node .member base.span.start [base.withRole .object, name.withRole .property], next)
  else
    (base, stream.damage)

/-- Reads a subscript. -/
def subscript (rules : Rules) (base : Node) (stream : Stream) : Node × Stream :=
  let (inner, afterInner) := rules (.expressions .bracket) stream.advance
  let closed := afterInner.expect "]"
  (closed.node .subscript base.span.start (base :: inner), closed)

/-- The words that begin a statement or an expression and are no labels. -/
def leadingWords : List String :=
  ["if", "for", "while", "with", "do", "switch", "try", "return", "throw", "break", "continue",
    "debugger", "import", "var", "const", "function", "class", "new", "yield", "undefined"] ++
    unaryWords ++ valueWords

/-- Whether the parenthesis here may begin parameters, as far as the next two lexemes
    tell. -/
def mayBeParameters (stream : Stream) : Bool :=
  let first := stream.advance
  first.atAny [")", "[", openBrace, "..."] ||
    (first.current.isWord &&
      [")", ",", "=", ".", "?.", "["].any fun mark => first.following.kind == .punctuator mark)

/-- Whether a curly bracket where a block may begin can begin an object. If a word
    comes first it must be a name with a value, a method or a mark of one, since a
    statement may begin with any other. A name with a default must have something
    after it. -/
def mayBeObject (rules : Rules) (stream : Stream) : Bool :=
  let first := stream.advance
  let next := first.advance.afterOperand
  if !first.current.isWord || (first.atWord "static" && next.atWord "get") then true
  else if first.atAnyWord leadingWords || next.endsAtBreak then false
  else if next.atMark "=" then (rules (.assignment .bracket) next.advance).2.atMark ","
  else if next.atMark "(" then mayBeParameters next
  else
    next.atAny [":", closeBrace] ||
      (first.atAnyWord ["static", "async", "get", "set"] && !next.atMark ",")

/-- Reads the body of an arrow function that begins with a curly bracket: a block, or
    an expression if it cannot be one. Nothing can be assigned to a block. -/
def bracedBody (rules : Rules) (ending : Ending) : Stream → Outcome :=
  Outcome.ofClean fun clean =>
    let (nodes, inner) := rules.openBlock clean
    let closed := inner.closeBlock
    let outcome := (nodes, if closed.atMark "=" then closed.damage else closed.afterBlock)
    if outcome.2.damaged && mayBeObject rules clean then
      Outcome.orBetter outcome (rules (.assignment ending) clean)
    else
      outcome

/-- Reads the body of an arrow function. -/
def arrowBody (rules : Rules) (ending : Ending) (stream : Stream) : Outcome :=
  if stream.atMark openBrace then bracedBody rules ending stream
  else rules (.assignment ending) stream

/-- Reads an arrow function from its arrow on, the parameters being given. -/
def arrow (rules : Rules) (ending : Ending) (base : Node) (stream : Stream) : Node × Stream :=
  let (body, after) := arrowBody rules ending stream.advance
  (after.node .other base.span.start (base :: body), after)

/-- Reads a template after what it is handed to. -/
def taggedTemplate (rules : Rules) (base : Node) (stream : Stream) : Node × Stream :=
  let (parts, after) := template rules stream
  (after.node .call base.span.start
    [base.withRole .function, parts.withRole .arguments], after)

/-- Reads one suffix of an operand, if there is one. -/
def suffix? (rules : Rules) (base : Node) (stream : Stream) : Option (Node × Stream) :=
  let isLoose := base.kind == .loose
  if stream.atMark "." then some (memberName base stream.advance)
  else if stream.atMark "?." then
    let next := stream.advance
    if next.atMark "(" then if isLoose then none else some (call rules base next)
    else if next.atMark "[" then some (subscript rules base next)
    else some (memberName base next)
  else if stream.atMark "[" then some (subscript rules base stream)
  else if stream.atMark "(" then some (call rules base stream)
  else if stream.atMark "`" then if isLoose then none else some (taggedTemplate rules base stream)
  else if stream.atAny ["++", "--"] then
    let next := stream.advance
    some (next.node .loose base.span.start [base], next)
  else none

/-- Reads the arrow after an operand that may be a name. -/
def arrowSuffix? (rules : Rules) (ending : Ending) (base : Node) (stream : Stream) :
    Option (Node × Stream) :=
  if stream.atMark "=>" then
    some (arrow rules ending base (if base.kind == .identifier then stream else stream.damage))
  else none

/-- Reads what makes a pattern of an operand: the arrow after parameters in
    parentheses, or the value that is assigned to it. A pattern is no operand, so that
    a comment in the manner of markup may come between. -/
def patternSuffix? (rules : Rules) (ending : Ending) (base : Node) (stream : Stream) :
    Option (Node × Stream) :=
  if base.isParameterList && stream.atMark "=>" then some (arrow rules ending base stream)
  else if [.bracketed, .pattern, .group].contains base.kind && stream.atMark "=" then
    let (value, after) := rules (.assignment ending) stream.advance
    some (after.node .assigned base.span.start (base :: value), after)
  else none

/-- Notes it if an operator assigns to an operand that can have no value. -/
def checkTarget (base : Node) (stream : Stream) : Stream :=
  if stream.atMark "=" && !base.isTarget || stream.atAny changingOperators && !base.isPlace then
    stream.damage
  else
    stream

/-- Reads the suffixes of an operand. -/
def suffixes (rules : Rules) (ending : Ending) (base : Node) (given : Stream) : Outcome :=
  match patternSuffix? rules ending base given with
  | some (extended, next) => rules (.suffixes ending extended) next
  | none =>
    let stream := given.afterOperand
    if ending.isReached stream then ([base], stream)
    else
      match arrowSuffix? rules ending base stream <|> suffix? rules base stream with
      | some (extended, next) => rules (.suffixes ending extended) next
      | none => ([base], checkTarget base stream)

/-- Reads the suffixes of what is constructed: all those that bind more strongly
    than an argument list does. -/
def memberSuffixes (rules : Rules) (ending : Ending) (base : Node) (given : Stream) : Outcome :=
  match patternSuffix? rules ending base given with
  | some (extended, next) => rules (.memberSuffixes ending extended) next
  | none =>
    let stream := given.afterOperand
    if stream.atAny ["=>", ".", "?.", "[", "`"] && !ending.isReached stream then
      match arrowSuffix? rules ending base stream <|> suffix? rules base stream with
      | some (extended, next) => rules (.memberSuffixes ending extended) next
      | none => ([base], stream)
    else
      ([base], stream)

/-- Reads an operand in parentheses, which may turn out to be parameters. It must be
    if it is empty, ends with a comma or has something spread in it. -/
def group (rules : Rules) (stream : Stream) : Node × Stream :=
  let (items, inner) := rules .grouped stream.advance
  let closed := inner.expect ")"
  let needsArrow := items.isEmpty ||
    items.any fun item => item.needsPattern || item.kind == .spread || item.kind == .parameter
  (closed.node .group stream.offset items,
    if needsArrow && !closed.atMark "=>" then closed.damage else closed)

/-- Whether the word `async` makes the function after it asynchronous. -/
def isAsyncMark (ending : Ending) (stream : Stream) : Bool :=
  let next := stream.advance.afterOperand
  stream.atWord "async" && next.current.isWord && !ending.isReached next &&
    (next.atWord "function" || (next.advance.atMark "=>" && !next.atAnyWord binaryWords))

/-- Reads a function that is an operand, from its keyword on. The operand may
    begin before the keyword. -/
def functionOperand (rules : Rules) (start : Nat) (stream : Stream) : Node × Stream :=
  let (nodes, next) := rules.function stream
  let after := next.afterBlock
  (after.node .other start nodes, after)

/-- Reads what begins with the word `import` and is no statement: a call, the data
    about the script itself, or an optional member. -/
def importOperand (rules : Rules) (stream : Stream) : Node × Stream :=
  let word := stream.leaf .other
  let next := stream.advance
  if next.atMark "(" then call rules word next
  else if next.atMark "." then
    let after := next.advance.expectWord "meta"
    (after.node .other stream.offset [], after)
  else if next.atMark "?." then memberName word next.advance
  else (word, next.damage)

/-- Reads the word `async` with parentheses after it: a call, or an asynchronous
    function if an arrow follows. -/
def asyncGroup (rules : Rules) (ending : Ending) (stream : Stream) : Node × Stream :=
  let (arguments, whole, closed) := argumentList rules stream.advance.afterOperand
  let called := callNode (stream.leaf .identifier) arguments whole closed
  if closed.atMark "=>" then
    let isSound := arguments.namedChildren.all fun item => item.isComment || item.isParameter
    arrow rules ending called (if isSound then closed else closed.damage)
  else
    (called, checkArguments arguments closed)

/-- Reads a primary expression that begins with a word. -/
def wordOperand (rules : Rules) (ending : Ending) (stream : Stream) : Node × Stream :=
  if isAsyncMark ending stream then
    let next := stream.advance
    if next.atWord "function" then functionOperand rules stream.offset next
    else
      let after := next.advance
      arrow rules ending (after.node .other stream.offset [next.leaf .identifier]) after
  else if stream.atWord "function" then functionOperand rules stream.offset stream
  else if stream.atWord "class" then
    let (nodes, after) := rules.class stream
    (after.node .other stream.offset nodes, after)
  else if stream.atWord "import" then importOperand rules stream
  else if stream.atWord "async" && stream.advance.afterOperand.atMark "(" then
    asyncGroup rules ending stream
  else if stream.atAnyWord valueWords then (stream.leaf .other, stream.advance)
  else if stream.atWord "undefined" then (stream.leaf .undefined, stream.advance)
  else (stream.leaf .identifier, stream.advance)

/-- The kind of an array or object with these parts. Its punctuators do not
    matter. -/
def bracketedKind (parts : List Node) : NodeKind :=
  if parts.all fun part => !part.isNamed || part.isComment || part.isPattern then
    if parts.any Node.needsPattern then .pattern else .bracketed
  else
    .other

/-- Reads an array. -/
def array (rules : Rules) (stream : Stream) : Node × Stream :=
  let (items, inner) := rules (.elements "]") stream.advance
  let closed := inner.expect "]"
  (closed.node (bracketedKind items) stream.offset (listNodes "]" stream items inner), closed)

/-- Reads an object. -/
def object (rules : Rules) (stream : Stream) : Node × Stream :=
  let (properties, inner) := rules .properties (stream.expect openBrace)
  let closed := inner.expect closeBrace
  (closed.node (bracketedKind properties) stream.offset properties, closed)

/-- Reads a primary expression. -/
def primary (rules : Rules) (ending : Ending) (stream : Stream) : Node × Stream :=
  match stream.current.kind with
  | .word _ => wordOperand rules ending stream
  | .number => (stream.leaf .other, stream.advance)
  | .string escapes =>
    let children := escapes.map fun escape => Node.mk .escape true .plain escape []
    (.mk .string true .plain stream.current.span children, stream.advance)
  | _ =>
    if stream.atMark "(" then group rules stream
    else if stream.atMark "[" then array rules stream
    else if stream.atMark openBrace then object rules stream
    else if stream.atMark "`" then template rules stream
    else if stream.atAny ["/", "/="] then regex ending stream
    else if stream.current.source.head? = some '<' then rules.one .element stream
    else if stream.atMark "@" then
      let (marks, next) := rules .decorators stream
      let (nodes, after) := rules.class next
      (after.node .other stream.offset (marks ++ nodes), after)
    else (.mk .damage true .plain ⟨stream.offset, stream.offset⟩ [], stream.damage)

/-- Whether a word stands here that makes what follows it no primary expression. The
    word `yield` does not if a member of what it gives is meant. -/
def isOperator (stream : Stream) : Bool :=
  stream.atAnyWord unaryWords ||
    (stream.atWord "yield" && !stream.advance.afterOperand.atAny [".", "?."])

/-- Reads what begins with `new`, with its argument list if there is one. -/
def construction (rules : Rules) (ending : Ending) (stream : Stream) : Outcome :=
  let start := if isOperator stream.advance then stream.advance.damage else stream.advance
  if start.atMark "." then
    let next := start.advance.expectWord "target"
    ([next.node .other stream.offset []], next)
  else
    let (base, next) :=
      if start.atWord "new" then rules.one (.construction ending) start
      else if start.atWord "yield" then (start.leaf .other, start.advance)
      else if start.atWord "async" && start.advance.afterOperand.atMark "(" then
        let (made, after) := asyncGroup rules ending start
        if made.kind == .other then (made, after) else (start.leaf .identifier, start.advance)
      else primary rules ending start
    let (callee, afterCallee) := rules.one (.memberSuffixes ending base) next
    let (nodes, after) :=
      if afterCallee.atMark "(" && !ending.isReached afterCallee then
        let (arguments, _, closed) := argumentList rules afterCallee
        ([callee, arguments], checkArguments arguments closed)
      else
        ([callee], afterCallee)
    ([after.node .other stream.offset nodes], after)

/-- Reads an operand that begins with `yield`, which takes a whole expression
    without commas if one follows. -/
def yielding (rules : Rules) (ending : Ending) (stream : Stream) : Outcome :=
  let next := stream.advance.afterOperand
  if next.atMark "*" then
    let (inner, after) := rules (.assignment ending) next.advance
    ([after.node .other stream.offset inner], after)
  else if ending.isReached next || beginsNone next || next.atAnyWord binaryWords then
    rules (.suffixes ending (next.node .other stream.offset [])) next
  else
    let (inner, after) := rules (.assignment ending) next
    ([after.node .other stream.offset inner], after)

/-- Reads a private name and the operand in which it is looked for. -/
def privateTest (rules : Rules) (ending : Ending) (stream : Stream) : Outcome :=
  let (inner, after) := rules (.operand ending) (stream.advance.expectWord "in")
  ([after.node .other stream.offset inner], after)

/-- Reads an operand with the operators before it. -/
def operand (rules : Rules) (ending : Ending) (stream : Stream) : Outcome :=
  if stream.atAny unaryOperators || stream.atAnyWord unaryWords then
    let (inner, after) := rules (.operand ending) stream.advance
    ([after.node .other stream.offset inner], after)
  else if stream.atWord "new" then
    let (base, next) := rules.one (.construction ending) stream
    rules (.suffixes ending base) next
  else if stream.atWord "yield" then yielding rules ending stream
  else if stream.current.kind == .privateName then privateTest rules ending stream
  else
    let (base, next) := primary rules ending stream
    if base.kind = .damage then ([base], next) else rules (.suffixes ending base) next

/-- Whether a question mark that begins a choice begins the text. -/
def beginsChoice : Text → Bool
  | '?' :: '?' :: _ => false
  | '?' :: '.' :: rest => (rest.head?.map Char.isDigit).getD false
  | '?' :: _ => true
  | _ => false

/-- The stream after a slash that is passed over because a question mark follows it
    at once. That is so where a statement may end. -/
def passSlash (ending : Ending) (stream : Stream) : Stream :=
  if ending == .statement && stream.atMark "/" && !stream.current.isAfterWide &&
      beginsChoice stream.current.rest then
    stream.advance
  else
    stream

/-- Reads the operators and operands after an operand. A question mark must have no
    wide white space before it. -/
def chain (rules : Rules) (ending : Ending) (given : Stream) : Outcome :=
  let stream := passSlash ending given.afterOperand
  if ending.isReached stream then ([], stream)
  else if stream.atAny binaryOperators || stream.atAnyWord binaryWords then
    let (first, next) := (rules (.operand ending) stream.advance).asValue
    let (more, after) := rules (.chain ending) next
    (first ++ more, after)
  else if stream.atMark "?" then
    let mark := if stream.current.isAfterWide then stream.damage else stream
    let (yes, afterYes) := rules (.assignment .bracket) mark.advance
    let (no, afterNo) := rules (.assignment ending) (afterYes.expect ":")
    let (more, after) := rules (.chain ending) afterNo
    (yes ++ no ++ more, after)
  else
    ([], stream)

/-- Reads an expression without commas. -/
def assignment (rules : Rules) (ending : Ending) (stream : Stream) : Outcome :=
  let (first, next) := rules (.operand ending) stream
  match rules (.chain ending) next with
  | ([], after) => (first, after)
  | (more, after) =>
    let kind := if next.atMark "=" && first.all Node.isTarget then .assigned else .other
    ([after.node kind stream.offset (first ++ more)], after)

/-- Reads an expression with commas. -/
def expressions (rules : Rules) (ending : Ending) (stream : Stream) : Outcome :=
  let (first, next) := (rules (.assignment ending) stream).asValue
  if next.atMark "," && !ending.isReached next then
    let (more, after) := rules (.expressions ending) next.advance
    (first ++ more, after)
  else
    (first, next)

/-- Reads the items between brackets up to the closing one, which is not taken.
    Items may be missing and may be spread. The comments before an item and the
    commas count as items. -/
def elements (rules : Rules) (close : String) (stream : Stream) : Outcome :=
  let comments := stream.commentNodes
  if stream.atMark close || stream.atFinish then (comments, stream)
  else if stream.atMark "," then
    let (more, after) := rules (.elements close) stream.advance
    (comments ++ stream.mark :: more, after)
  else
    let (item, next) :=
      if stream.atMark "..." then
        let (inner, after) := rules (.assignment .bracket) stream.advance
        ([after.node .spread stream.offset inner], after)
      else
        rules (.assignment .bracket) stream
    if next.atMark "," then
      let (more, after) := rules (.elements close) next.advance
      (comments ++ item ++ next.mark :: more, after)
    else
      (comments ++ item, next)

/-- Reads an item of a group. One that is spread can only be a parameter. -/
def groupedItem (rules : Rules) (stream : Stream) : Outcome :=
  if stream.atMark "..." then
    let (inner, after) := rules (.assignment .bracket) stream.advance
    ([after.node .spread stream.offset inner], after)
  else
    rules (.assignment .bracket) stream

/-- Reads the items between parentheses up to the closing one, which is not taken. No
    item may be missing, but a comma may come last if the items are parameters. -/
def grouped (rules : Rules) (stream : Stream) : Outcome :=
  if stream.atMark ")" || stream.atFinish then ([], stream)
  else
    let (item, next) := groupedItem rules stream
    if next.atMark "," then
      let (more, after) := rules .grouped next.advance
      (if more.isEmpty then item.map Node.asParameter else item ++ more, after)
    else
      (item, next)

end BlockMarkup.Script.Rule
