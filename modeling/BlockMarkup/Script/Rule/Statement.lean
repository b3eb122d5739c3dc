import BlockMarkup.Script.Rule.Expression

/-!
# Rules for statements

A word begins a special statement only where a statement may begin; elsewhere
it is a name like any other. A block, a function or a class at the start of a
statement may turn out to be the first operand of an expression: it does if it
cannot be read otherwise, or if what follows it can only go on with an
expression. Without a name a function or class is an operand in any case.

Going through the statements of a list always makes progress: what no statement
can begin with is passed over as damage.
-/

namespace BlockMarkup.Script.Rule

/-- Reads a statement that is an expression. -/
def expressionStatement (rules : Rules) (stream : Stream) : Outcome :=
  let (nodes, after) := rules (.expressions .statement) stream
  (nodes, after.endStatement)

/-- The marks that go on with an expression but may also begin one. -/
def ambiguousMarks : List String := ["(", "[", "`", "+", "-", "++", "--", "/", "/=", "<"]

/-- Whether what has been read as a whole statement goes on as an expression. It
    does before a mark that can begin a statement if no other statement can
    follow. -/
def goesOn (place : StatementPlace) (stream : Stream) : Bool :=
  stream.atMark "," || continuesExpression stream ||
    (place == .doBody && stream.atAny (";" :: ambiguousMarks) && !stream.endsAtBreak)

/-- Whether a block begins here whose first statement has a label. -/
def beginsWithLabel (stream : Stream) : Bool :=
  stream.advance.current.isWord && stream.advance.following.kind == .punctuator ":"

/-- Reads a block at the start of a statement, which may turn out to be an object: if
    it cannot be read as a block, if what follows goes on with an expression, or if
    its first name looks like a label and what follows could go on with it. -/
def blockStatement (rules : Rules) (place : StatementPlace) : Stream → Outcome :=
  Outcome.ofClean fun clean =>
    let (nodes, inner) := rules.openBlock clean
    let closed := inner.closeBlock
    let isEmpty := clean.advance.atMark closeBrace
    let after :=
      closed.afterOptionalEnd (if isEmpty then closed.endsAtBreak else closed.endsAtOnce)
    let isDoubtful := after.damaged || goesOn place after ||
      (after.atAny ambiguousMarks && beginsWithLabel clean)
    if isDoubtful && mayBeObject rules clean then
      Outcome.orBetter (nodes, after) (expressionStatement rules clean)
    else
      (nodes, after)

/-- Reads a name, which may be any word, or the pattern in its place. -/
def binding (rules : Rules) (stream : Stream) : Node × Stream :=
  if stream.current.isWord then (stream.leaf .identifier, stream.advance)
  else
    let (target, after) := primary rules .bracket stream
    (target, if [.bracketed, .pattern].contains target.kind then after else after.damage)

/-- Reads what is declared after `var`, `let` or `const`, to the end of the
    declaration. -/
def declarators (rules : Rules) (stream : Stream) : Outcome :=
  let (target, bound) := binding rules stream
  let afterTarget := bound.afterOperand
  let hasValue := afterTarget.atMark "=" && !afterTarget.endsAtOnce
  let (value, next) :=
    if hasValue then (rules (.assignment .statement) afterTarget.advance).asValue
    else ([], afterTarget)
  let isEnded := if hasValue then next.endsAtBreak else next.endsAtOnce
  if next.atMark "," && !isEnded then
    let (more, after) := rules .declarators next.advance
    (target :: value ++ more, after)
  else
    (target :: value, if hasValue then next.endStatement else next.endAtOnce)

/-- Whether the word `let` declares something here; it may also be a name. -/
def isLet (ending : Ending) (stream : Stream) : Bool :=
  let next := stream.advance.afterOperand
  stream.atWord "let" && !ending.isReached next &&
    (next.current.isWord && !next.atAnyWord binaryWords || next.atMark "[" ||
      next.atMark openBrace)

/-- Reads a declaration with its keyword. -/
def declaration (rules : Rules) (stream : Stream) : Outcome :=
  rules .declarators stream.advance

/-- Reads a part of the head of a counting loop, which may be empty. -/
def loopPart (rules : Rules) (stream : Stream) : Outcome :=
  if stream.atAny [";", ")"] then ([], stream) else rules (.expressions .bracket) stream

/-- Reads the head of a counting loop after its first part and the semicolon, up to
    and including its closing parenthesis. -/
def countingRest (rules : Rules) (stream : Stream) : Outcome :=
  let (condition, next) := loopPart rules stream
  let (change, after) := loopPart rules (next.expect ";")
  (condition ++ change, after.expect ")")

/-- Reads the head of a loop over the items or keys of something, from the word `of`
    or `in` on. -/
def sourceRest (rules : Rules) (stream : Stream) : Outcome :=
  if stream.atAnyWord ["of", "in"] then
    let (source, after) := rules (.expressions .bracket) stream.advance
    (source, after.expect ")")
  else
    ([], stream.damage)

/-- Reads the head of a counting loop that declares something, after the keyword. -/
def countingHead (rules : Rules) (stream : Stream) : Outcome :=
  let (first, next) := rules .declarators stream
  let (rest, after) := countingRest rules next
  (first ++ rest, after)

/-- What kind of loop the head belongs to. A loop that waits for its items does not
    count. -/
inductive LoopKind where
  | any
  | waiting
deriving DecidableEq

/-- Reads the head of a loop over something that declares a variable with `var`, which
    may have a value. If the loop could also count, no semicolon may be left out
    before the word `of`, since the declaration would end there. -/
def variableHead (rules : Rules) (kind : LoopKind) (stream : Stream) : Outcome :=
  let (target, bound) := binding rules stream
  let afterTarget := if kind == .any then bound.afterOperand else bound
  let hasValue := afterTarget.atMark "="
  let (value, next) :=
    if hasValue then rules (.assignment .loopVariable) afterTarget.advance else ([], afterTarget)
  let isEnded := if hasValue then next.endsAtBreak else next.endsAtOnce
  let (rest, after) :=
    sourceRest rules (if kind == .any && isEnded then next.damage else next)
  (target :: value ++ rest, after)

/-- Reads the head of a loop over something that declares a variable with `let` or
    `const`. A semicolon may be left out after it. -/
def constantHead (rules : Rules) (stream : Stream) : Outcome :=
  let (target, next) := binding rules stream
  let (rest, after) := sourceRest rules (next.afterOptionalEnd next.endsAtOnce)
  (target :: rest, after)

/-- Reads the head of a counting loop that declares nothing. -/
def plainCountingHead (rules : Rules) (stream : Stream) : Outcome :=
  let (first, next) := loopPart rules stream
  let (rest, after) := countingRest rules (next.expect ";")
  (first ++ rest, after)

/-- Reads the head of a loop over something that declares nothing. -/
def plainHead (rules : Rules) (stream : Stream) : Outcome :=
  let (target, given) := rules (.operand .loopVariable) stream
  let isPattern := target.all fun node => [.bracketed, .pattern].contains node.kind
  let next := if isPattern then given.afterStatement else given
  let (rest, after) :=
    sourceRest rules (if target.all Node.isTarget then next else next.damage)
  (target ++ rest, after)

/-- Reads the head of a loop after its opening parenthesis. The word `let` before
    `of` is a name. -/
def loopHead (rules : Rules) (kind : LoopKind) (stream : Stream) : Outcome :=
  let isConstant := stream.atWord "const" ||
    (isLet .bracket stream && !stream.advance.atWord "of")
  let (overSource, counting, start) :=
    if stream.atWord "var" then (variableHead rules kind, countingHead rules, stream.advance)
    else if isConstant then (constantHead rules, countingHead rules, stream.advance)
    else (plainHead rules, plainCountingHead rules, stream)
  if kind == .waiting then overSource start
  else if (binding rules start).2.atAnyWord ["of", "in"] then
    Outcome.ofEither overSource counting start
  else Outcome.ofEither counting overSource start

/-- Reads a loop from the word `for` on. -/
def forLoop (rules : Rules) (place : StatementPlace) (stream : Stream) : Outcome :=
  let start := stream.advance
  let (kind, opening) : LoopKind × Stream :=
    if start.atWord "await" then (.waiting, start.advance) else (.any, start)
  let (head, afterHead) := loopHead rules kind (opening.expect "(")
  let (body, after) := rules (.statement place) afterHead
  (head ++ body, after)

/-- Reads a condition in parentheses and a statement. -/
def guarded (rules : Rules) (place : StatementPlace) (stream : Stream) : Outcome :=
  let (condition, next) := rules.parenthesized stream.advance
  let (body, after) := rules (.statement place) next
  (condition ++ body, after)

/-- Reads a choice from the word `if` on. -/
def choice (rules : Rules) (place : StatementPlace) (stream : Stream) : Outcome :=
  let (yes, next) := guarded rules place stream
  if next.atWord "else" then
    let (no, after) := rules (.statement place) next.advance
    (yes ++ no, after)
  else
    (yes, next)

/-- Reads a loop from the word `do` on. -/
def doLoop (rules : Rules) (stream : Stream) : Outcome :=
  let (body, next) := rules (.statement .doBody) stream.advance
  let (condition, closed) := rules.parenthesized (next.expectWord "while")
  let isLeftOut := closed.endsAtOnce
  let after := closed.afterOptionalEnd isLeftOut
  (body ++ condition, if isLeftOut then after else after.allow ";")

/-- Reads the cases of a `switch` up to its closing bracket. -/
def cases (rules : Rules) (stream : Stream) : Outcome :=
  if stream.atWord "case" then
    let (label, afterLabel) := rules (.expressions .bracket) stream.advance
    let (body, next) := rules (.statements true) (afterLabel.expect ":")
    let (more, after) := rules .cases next
    (label ++ body ++ more, after)
  else if stream.atWord "default" then
    let (body, next) := rules (.statements true) (stream.advance.expect ":")
    let (more, after) := rules .cases next
    (body ++ more, after)
  else
    ([], stream)

/-- Reads a statement from the word `switch` on. -/
def switch (rules : Rules) (stream : Stream) : Outcome :=
  let (subject, next) := rules.parenthesized stream.advance
  let (body, inner) := rules .cases (next.expect openBrace)
  (subject ++ body, inner.expect closeBrace)

/-- Reads the handler of a statement that begins with `try`, if there is one. -/
def handler (rules : Rules) (stream : Stream) : Outcome :=
  if stream.atWord "catch" then
    let start := stream.advance
    if start.atMark "(" then
      let (target, next) := binding rules start.advance
      let (body, after) := rules.block (next.expect ")")
      (target :: body, after)
    else
      rules.block start
  else
    ([], stream)

/-- Reads a statement from the word `try` on. -/
def attempt (rules : Rules) (stream : Stream) : Outcome :=
  let (body, afterBody) := rules.block stream.advance
  let (handled, afterHandler) := handler rules afterBody
  let (final, after) :=
    if afterHandler.atWord "finally" then rules.block afterHandler.advance else ([], afterHandler)
  (body ++ handled ++ final, after)

/-- Takes a word, or where it is allowed a string. -/
def wordOrString (allowsString : Bool) (stream : Stream) : Stream :=
  if stream.current.isWord || (allowsString && stream.current.isString) then stream.advance
  else stream.damage

/-- Takes a name and the other name that it may get. In an import a string and the
    word `default` must get one, which is a word. -/
def moduleName (isImport : Bool) (stream : Stream) : Stream :=
  let named := wordOrString true stream
  if named.atWord "as" then wordOrString (!isImport) named.advance
  else if isImport && (stream.current.isString || stream.atWord "default") then named.damage
  else named

/-- Takes the names of an import or export up to the closing bracket, as many as
    the budget allows. -/
def passModuleNames (isImport : Bool) : Nat → Stream → Stream
  | 0, stream => stream
  | budget + 1, stream =>
    if stream.atMark closeBrace then stream.advance
    else
      let next := moduleName isImport stream
      if next.atMark "," then passModuleNames isImport budget next.advance
      else next.expect closeBrace

/-- Takes the names in curly brackets. There may be none but a comma. -/
def moduleNames (isImport : Bool) (stream : Stream) : Stream :=
  let start := stream.expect openBrace
  if start.atMark "," then start.advance.expect closeBrace
  else passModuleNames isImport stream.current.rest.length start

/-- Takes an asterisk and the name that all names together get, which may be missing
    in an export. -/
def allNames (isImport : Bool) (stream : Stream) : Stream :=
  let next := stream.expect "*"
  if isImport || next.atWord "as" then wordOrString (!isImport) (next.expectWord "as") else next

/-- Takes all names together or names in curly brackets. -/
def someNames (stream : Stream) : Stream :=
  if stream.atMark "*" then allNames true stream else moduleNames true stream

/-- Takes what an import names. -/
def importedNames (stream : Stream) : Stream :=
  if stream.current.isWord then
    let next := stream.advance
    if next.atMark "," then someNames next.advance else next
  else
    someNames stream

/-- Takes the text that names a module. -/
def moduleText (stream : Stream) : Stream :=
  if stream.current.isString then stream.advance.afterOperand else stream.damage

/-- Reads the options of an import, if there are any, and its end. -/
def importEnd (rules : Rules) (stream : Stream) : Outcome :=
  if stream.atWord "with" && !stream.endsAtOnce then
    let (options, after) := object rules stream.advance
    ([options], after.endAtOnce)
  else
    ([], stream.endAtOnce)

/-- Reads an import from its word on. -/
def imported (rules : Rules) (stream : Stream) : Outcome :=
  let start := stream.advance
  if start.current.isString then importEnd rules start.advance.afterOperand
  else importEnd rules (moduleText ((importedNames start).expectWord "from"))

/-- Whether an export begins here. The word `export` may also be a name. -/
def isExport (stream : Stream) : Bool :=
  let next := stream.advance.afterOperand
  stream.atWord "export" && !next.endsAtBreak &&
    (next.atAnyWord ["default", "var", "let", "const", "function", "class", "async"] ||
      next.atAny ["*", "@", openBrace])

/-- Whether a function or class begins here, or decorators before a class. -/
def atDefinition (stream : Stream) : Bool :=
  stream.atAnyWord ["function", "class"] || stream.atMark "@" ||
    (isAsyncMark .statement stream && stream.advance.atWord "function")

/-- Reads a function or class that is exported under its own name. -/
def exportedDefinition (read : Stream → Outcome) (stream : Stream) : Outcome :=
  let (nodes, closed) := read stream
  (nodes, closed.afterOptionalEnd closed.endsAtOnce)

/-- Reads an export from its word on. -/
def exported (rules : Rules) (place : StatementPlace) (stream : Stream) : Outcome :=
  let start := stream.advance
  if start.atWord "default" then
    let value := start.advance
    if atDefinition value then rules (.statement place) value
    else if value.atAnyWord ["var", "const"] || isLet .statement value then declaration rules value
    else expressionStatement rules value
  else if start.atMark "*" then
    importEnd rules (moduleText ((allNames false start).expectWord "from"))
  else if start.atMark openBrace then
    let named := (moduleNames false start).afterOperand
    if named.atWord "from" && !named.endsAtOnce then
      importEnd rules (moduleText named.advance)
    else
      ([], named.endAtOnce)
  else if start.atAnyWord ["var", "let", "const"] then declaration rules start
  else if start.atWord "class" then exportedDefinition rules.class start
  else if start.atWord "async" then exportedDefinition rules.function start.advance
  else if start.atWord "function" then exportedDefinition rules.function start
  else rules (.statement place) start

/-- Reads a jump: a word and the label it may name. -/
def jump (stream : Stream) : Outcome :=
  let next := stream.advance.afterOperand
  ([], (if next.endsAtOnce then next else next.allowWord.afterOperand).endAtOnce)

/-- Reads the word `debugger`, which is a statement by itself. -/
def pause (stream : Stream) : Outcome :=
  ([], stream.advance.afterOperand.endAtOnce)

/-- Reads the word `return` and the expression that may follow it. -/
def returning (rules : Rules) (stream : Stream) : Outcome :=
  let next := stream.advance.afterOperand
  if next.atMark ";" || next.endsAtOnce then ([], next.endAtOnce)
  else expressionStatement rules next

/-- Reads a function or class that has a name, and goes on with it as an operand
    if it must. -/
def definition (rules : Rules) (place : StatementPlace) (read : Stream → Outcome)
    (stream : Stream) : Outcome :=
  let (nodes, closed) := read stream
  let after := closed.afterOptionalEnd closed.endsAtBreak
  if goesOn place after then expressionStatement rules stream else (nodes, after)

/-- Reads a function at the start of a statement, its keyword being at a later
    place than the statement if it is asynchronous. -/
def functionStatement (rules : Rules) (place : StatementPlace) (keyword stream : Stream) :
    Outcome :=
  if (keyword.advance.allow "*").atMark "(" then expressionStatement rules stream
  else definition rules place (fun _ => rules.function keyword) stream

/-- Reads a class at the start of a statement. -/
def classStatement (rules : Rules) (place : StatementPlace) (stream : Stream) : Outcome :=
  if stream.advance.atMark openBrace || stream.advance.atWord "extends" then
    expressionStatement rules stream
  else definition rules place rules.class stream

/-- Whether a label begins here. -/
def atLabel (stream : Stream) : Bool :=
  stream.following.kind == .punctuator ":" && !stream.atAnyWord leadingWords

/-- Reads a statement that begins with a word. -/
def wordStatement (rules : Rules) (place : StatementPlace) (stream : Stream) : Outcome :=
  if atLabel stream then rules (.statement place) stream.advance.advance
  else if stream.atAnyWord ["var", "const"] || isLet .statement stream then
    declaration rules stream
  else if stream.atWord "function" then functionStatement rules place stream stream
  else if isAsyncMark .statement stream && stream.advance.atWord "function" then
    functionStatement rules place stream.advance stream
  else if stream.atWord "class" then classStatement rules place stream
  else if stream.atWord "if" then choice rules place stream
  else if stream.atWord "for" then forLoop rules place stream
  else if stream.atAnyWord ["while", "with"] then guarded rules place stream
  else if stream.atWord "do" then doLoop rules stream
  else if stream.atWord "switch" then switch rules stream
  else if stream.atWord "try" then attempt rules stream
  else if stream.atWord "return" then returning rules stream
  else if stream.atWord "throw" then expressionStatement rules stream.advance
  else if stream.atAnyWord ["break", "continue"] then jump stream
  else if stream.atWord "debugger" then pause stream
  else if stream.atWord "import" && !stream.advance.atAny ["(", ".", "?."] then
    imported rules stream
  else if isExport stream then exported rules place stream
  else expressionStatement rules stream

/-- Reads a statement. -/
def statement (rules : Rules) (place : StatementPlace) (stream : Stream) : Outcome :=
  if stream.atMark openBrace then blockStatement rules place stream
  else if stream.atMark ";" then ([], stream.advance)
  else if stream.atMark "@" then
    let (marks, next) := rules .decorators stream
    let (nodes, after) :=
      if next.atWord "export" then exported rules place next
      else rules (.statement place) (if next.atWord "class" then next else next.damage)
    (marks ++ nodes, after)
  else if stream.current.isWord then wordStatement rules place stream
  else expressionStatement rules stream

/-- Reads statements up to a closing bracket or the end of the script, in a
    `switch` also up to the next case. -/
def statements (rules : Rules) (inSwitch : Bool) (stream : Stream) : Outcome :=
  if stream.atFinish || stream.atMark closeBrace ||
      (inSwitch && stream.atAnyWord ["case", "default"]) then
    ([], stream)
  else
    let (first, next) := rules (.statement .list) stream
    let progress := if next.offset = stream.offset then next.skip else next
    let (more, after) := rules (.statements inSwitch) progress
    (first ++ more, after)

/-- Reads a whole script. A closing bracket that closes nothing is passed over. -/
def program (rules : Rules) (stream : Stream) : Outcome :=
  let (first, next) := rules (.statements false) stream
  if next.atFinish then (first, next)
  else
    let (more, after) := rules .program next.skip
    (first ++ more, after)

end BlockMarkup.Script.Rule
