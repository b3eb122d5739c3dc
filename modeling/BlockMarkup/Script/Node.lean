import BlockMarkup.Span

/-!
# Trees of scripts

A node of a script's tree has a kind, the role it plays in its parent, the span
of the script it covers, and its children from left to right. A node is named if a
rule of the language or a kind of lexeme has a name for what it stands for. The
punctuators and keywords that a rule spells out are anonymous nodes, and a walk
through the tree meets them like any others. Only those kinds and roles are told
apart that matter for finding calls.
-/

namespace BlockMarkup.Script

/-- What a node stands for. An array or object that may turn out to be a pattern is
    bracketed; one that must, because it gives a name a default, is a pattern, and so
    is the part of it that does. A group stands in parentheses. Something assigned is a target
    together with its value, or a property that may belong to a pattern. The word
    `undefined` is no identifier, though a value may be assigned to it. A loose
    operand cannot be handed a template. A comment in the manner of markup is kept
    apart from the comments of the language. -/
inductive NodeKind where
  | program
  | call
  | member
  | subscript
  | identifier
  | undefined
  | property
  | arguments
  | string
  | template
  | bracketed
  | pattern
  | group
  | assigned
  | spread
  | parameter
  | loose
  | escape
  | substitution
  | comment
  | markup
  | damage
  | other
deriving DecidableEq

/-- The part a node plays in its parent. -/
inductive Role where
  | plain
  | function
  | arguments
  | object
  | property
deriving DecidableEq

/-- A node of a script's tree, named or anonymous. -/
inductive Node where
  | mk (kind : NodeKind) (isNamed : Bool) (role : Role) (span : Span) (children : List Node)

namespace Node

/-- What the node stands for. -/
def kind : Node → NodeKind
  | mk kind _ _ _ _ => kind

/-- Whether the node stands for something that has a name in the language. -/
def isNamed : Node → Bool
  | mk _ isNamed _ _ _ => isNamed

/-- The part the node plays in its parent. -/
def role : Node → Role
  | mk _ _ role _ _ => role

/-- The span the node covers. -/
def span : Node → Span
  | mk _ _ _ span _ => span

/-- The children from left to right. -/
def children : Node → List Node
  | mk _ _ _ _ children => children

/-- The named children from left to right. -/
def namedChildren (node : Node) : List Node :=
  node.children.filter isNamed

/-- The node in another role. -/
def withRole (role : Role) : Node → Node
  | mk kind isNamed _ span children => mk kind isNamed role span children

/-- The first child with the role. -/
def child? (role : Role) (node : Node) : Option Node :=
  node.children.find? fun child => child.role == role

/-- Whether the node is a comment of either manner. -/
def isComment (node : Node) : Bool :=
  node.kind == .comment || node.kind == .markup

/-- Whether the node is a place whose value can be changed. -/
def isPlace (node : Node) : Bool :=
  [.identifier, .member, .subscript, .group].contains node.kind

/-- Whether a value can be assigned to the node. -/
def isTarget (node : Node) : Bool :=
  node.isPlace || [.undefined, .bracketed, .pattern].contains node.kind

/-- Whether the node can be spread in a pattern. -/
def isPatternItem (node : Node) : Bool :=
  node.kind != .group && node.isTarget

/-- Whether the node can be part of a pattern. It may have a value or be spread. -/
def isPattern (node : Node) : Bool :=
  node.isPatternItem || node.kind == .assigned ||
    (node.kind == .spread && node.children.all isPatternItem)

/-- Whether the node must be part of a pattern. -/
def needsPattern (node : Node) : Bool :=
  node.kind == .pattern || (node.kind == .spread && node.children.any (·.kind == .pattern))

/-- Whether the node can be a parameter. It may be one that can be nothing else. -/
def isParameter (node : Node) : Bool :=
  node.isPattern || (node.kind == .parameter && node.children.all isPattern)

/-- The node as one that can only be a parameter. -/
def asParameter (node : Node) : Node :=
  .mk .parameter true .plain node.span [node]

/-- Whether the node can be the parameters of a function. -/
def isParameterList (node : Node) : Bool :=
  node.kind == .group && node.children.all isParameter

mutual

/-- The number of nodes in a tree. -/
def size : Node → Nat
  | mk _ _ _ _ children => 1 + sizeAll children

/-- The number of nodes in some trees. -/
def sizeAll : List Node → Nat
  | [] => 0
  | node :: rest => size node + sizeAll rest

end

mutual

/-- The nodes of a tree, each before those below it and those to its right. -/
def preorder : Node → List Node
  | mk kind isNamed role span children =>
    mk kind isNamed role span children :: preorderAll children

/-- The nodes of some trees, tree by tree. -/
def preorderAll : List Node → List Node
  | [] => []
  | node :: rest => preorder node ++ preorderAll rest

end

end Node

end BlockMarkup.Script
