import BlockMarkup.Script.Cursor
import BlockMarkup.Script.MemberCall

/-!
# The member calls of a tree

A call is a member call if the function it calls is a member of an object, the
object is a plain identifier and the member a plain name. Its first argument is
the first named node of its argument list that is no comment, since the brackets
and commas of the list are anonymous nodes of it. A string or template is a literal
if it has neither an escape nor a substitution, so that its characters are its
value.
-/

namespace BlockMarkup.Script

namespace Node

/-- Whether the node is a string or template whose characters are its value. -/
def isVerbatim (node : Node) : Bool :=
  (node.kind == .string || node.kind == .template) &&
    node.namedChildren.all fun child => child.kind != .escape && child.kind != .substitution

/-- The node as an argument. A literal has at least its two quotes. -/
def argument (node : Node) : CallArgument :=
  let span := node.span
  if node.isVerbatim && span.start + 2 ≤ span.stop then
    .literal span ⟨span.start + 1, span.stop - 1⟩
  else
    .other span

/-- The first argument of a call, if the call has an argument list. -/
def firstArgument? (call : Node) : Option CallArgument := do
  let list ← call.child? .arguments
  if list.kind = .arguments then
    (list.namedChildren.find? fun child => child.kind != .comment).map argument
  else
    none

/-- The node as a member call, the script being given. -/
def memberCall? (source : Text) (node : Node) : Option MemberCall :=
  if node.kind = .call then do
    let function ← node.child? .function
    let object ← function.child? .object
    let property ← function.child? .property
    if function.kind = .member ∧ object.kind = .identifier ∧ property.kind = .property then
      return {
        object := ← Text.slice? source object.span.start object.span.stop
        property := ← Text.slice? source property.span.start property.span.stop
        span := node.span
        argument := node.firstArgument? }
    else
      none
  else
    none

end Node

/-- The member calls of a script with that tree, each before those inside it. -/
def memberCalls (source : Text) (root : Node) : List MemberCall :=
  root.collect (Node.memberCall? source)

end BlockMarkup.Script
