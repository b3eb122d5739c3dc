import BlockMarkup.Script.Stream

/-!
# What a part of a script is read as

The rules of the language refer to one another by goals. A rule reads a part of
a script as its goal demands and answers the nodes it has built and the stream
after them. It never fails. What does not fit is passed over and noted as
damage, and a construct that is cut short becomes a node of damage that keeps
the complete parts it has.

Operators are not ranked: an expression is a row of operands, since neither the
spans nor the order of calls depend on how strongly operators bind. Patterns are
read as the expressions that look like them.
-/

namespace BlockMarkup.Script

/-- How an expression ends. In a statement it may end where a semicolon is left
    out; between brackets it goes on to the closing one. The value of a variable in
    the head of a loop ends before the words `of` and `in`. -/
inductive Ending where
  | statement
  | bracket
  | loopVariable
deriving DecidableEq

/-- Whether an expression that has come to the end of an operand ends there. -/
def Ending.isReached (ending : Ending) (stream : Stream) : Bool :=
  match ending with
  | .statement => stream.endsAtBreak
  | .bracket => false
  | .loopVariable => stream.atAnyWord ["of", "in"]

/-- Where a statement stands. The body of a loop that begins with `do` is followed
    by the word `while` only, any other statement possibly by another statement. -/
inductive StatementPlace where
  | list
  | doBody
deriving DecidableEq

/-- What a part of a script is read as. -/
inductive Goal where
  | program
  | statements (inSwitch : Bool)
  | statement (place : StatementPlace)
  | declarators
  | cases
  | expressions (ending : Ending)
  | assignment (ending : Ending)
  | chain (ending : Ending)
  | operand (ending : Ending)
  | construction (ending : Ending)
  | suffixes (ending : Ending) (base : Node)
  | memberSuffixes (ending : Ending) (base : Node)
  | elements (close : String)
  | grouped
  | properties
  | classMembers
  | templateParts
  | decorators
  | element
  | attributes
  | contents

/-- The nodes that a rule has built, and the stream after them. -/
abbrev Outcome := List Node × Stream

/-- The rules for all goals, as a rule sees them. -/
abbrev Rules := Goal → Stream → Outcome

/-- The only node of an outcome, or one node for all of them. -/
def Outcome.single (start : Nat) (outcome : Outcome) : Node × Stream :=
  match outcome with
  | ([node], stream) => (node, stream)
  | (nodes, stream) => (stream.node .other start nodes, stream)

/-- The outcome of a reading that sees only the damage it meets itself. -/
def Outcome.ofClean (read : Stream → Outcome) (stream : Stream) : Outcome :=
  let (nodes, after) := read { stream with damaged := false }
  (nodes, { after with damaged := after.damaged || stream.damaged })

/-- The other outcome if it has no damage. -/
def Outcome.orBetter (outcome other : Outcome) : Outcome :=
  if other.2.damaged then outcome else other

/-- The outcome of the first reading, or of the second one if it has no damage
    and the first has. -/
def Outcome.ofEither (first second : Stream → Outcome) : Stream → Outcome :=
  Outcome.ofClean fun clean =>
    let outcome := first clean
    if outcome.2.damaged then outcome.orBetter (second clean) else outcome

/-- The outcome if its nodes are values. One that must be a pattern is none. -/
def Outcome.asValue (outcome : Outcome) : Outcome :=
  if outcome.1.any Node.needsPattern then (outcome.1, outcome.2.damage) else outcome

/-- Reads one node for the goal. -/
def Rules.one (rules : Rules) (goal : Goal) (stream : Stream) : Node × Stream :=
  Outcome.single stream.offset (rules goal stream)

/-- Reads an expression in parentheses. -/
def Rules.parenthesized (rules : Rules) (stream : Stream) : Outcome :=
  let (nodes, inner) := rules (.expressions .bracket) (stream.expect "(")
  (nodes, inner.expect ")")

/-- Reads statements after an opening curly bracket, up to the closing one. -/
def Rules.openBlock (rules : Rules) (stream : Stream) : Outcome :=
  rules (.statements false) (stream.expect openBrace)

/-- Takes the bracket that closes a block. -/
def Stream.closeBlock (stream : Stream) : Stream :=
  let closed := stream.expect closeBrace
  closed.afterOptionalEnd closed.endsAtOnce

/-- Reads statements in curly brackets. -/
def Rules.block (rules : Rules) (stream : Stream) : Outcome :=
  let (nodes, inner) := rules.openBlock stream
  (nodes, inner.closeBlock)

/-- Reads the parameters of a function in parentheses. -/
def Rules.parameters (rules : Rules) (stream : Stream) : Outcome :=
  let (nodes, inner) := rules .grouped (stream.expect "(")
  let closed := inner.expect ")"
  (nodes, if nodes.all Node.isParameter then closed else closed.damage)

/-- Reads parameters and body of a function. -/
def Rules.callable (rules : Rules) (stream : Stream) : Outcome :=
  let (parameters, afterParameters) := rules.parameters stream
  let (body, afterBody) := rules.block afterParameters
  (parameters ++ body, afterBody)

/-- Reads a function from its keyword on. The name may be missing. -/
def Rules.function (rules : Rules) (stream : Stream) : Outcome :=
  rules.callable ((stream.expectWord "function").allow "*").allowWord

/-- Reads a class from its keyword on. The name may be missing. -/
def Rules.class (rules : Rules) (stream : Stream) : Outcome :=
  let keyword := stream.expectWord "class"
  let named := if keyword.atWord "extends" then keyword else keyword.allowWord
  let (heritage, beforeBody) :=
    if named.atWord "extends" then rules (.assignment .bracket) named.advance else ([], named)
  let (members, inner) := rules .classMembers (beforeBody.expect openBrace)
  (heritage ++ members, inner.expect closeBrace)

end BlockMarkup.Script
