import BlockMarkup.Script.Node

/-!
# Walking a tree with a cursor

A cursor stands on a node and remembers the way to it: for every step down, the
node it came from and the siblings that are still to the right. It moves to the
first child, to the next sibling or to the parent, and stays where it is if
there is no such node.

The walk looks at the node it stands on and goes down if it can. Otherwise it
goes to the next sibling, climbing until there is one. It ends when it cannot
climb any further. A walk looks at every node once, so a budget of one round per
node is enough.
-/

namespace BlockMarkup.Script

/-- A step down: the parent, and the siblings to the right. -/
structure Ascent where
  parent : Node
  right : List Node

/-- A node and the way to it from the root, the last step first. -/
structure Cursor where
  node : Node
  path : List Ascent

namespace Cursor

/-- A cursor on the root of a tree. -/
def atRoot (root : Node) : Cursor := ⟨root, []⟩

/-- Goes to the first child. -/
def firstChild? (cursor : Cursor) : Option Cursor :=
  match cursor.node.children with
  | [] => none
  | child :: right => some ⟨child, ⟨cursor.node, right⟩ :: cursor.path⟩

/-- Goes to the next sibling. -/
def nextSibling? (cursor : Cursor) : Option Cursor :=
  match cursor.path with
  | ⟨parent, sibling :: right⟩ :: above => some ⟨sibling, ⟨parent, right⟩ :: above⟩
  | _ => none

/-- Goes to the parent. -/
def parent? (cursor : Cursor) : Option Cursor :=
  match cursor.path with
  | [] => none
  | ascent :: above => some ⟨ascent.parent, above⟩

/-- Goes to the next sibling of the node or of the nearest node above that has
    one, with one round of budget for each step up. -/
def climb? : Nat → Cursor → Option Cursor
  | 0, _ => none
  | budget + 1, cursor =>
    match cursor.nextSibling? with
    | some sibling => some sibling
    | none =>
      match cursor.parent? with
      | some parent => climb? budget parent
      | none => none

/-- Goes to the node after this one: the first child, or else where climbing
    leads. -/
def next? (cursor : Cursor) : Option Cursor :=
  match cursor.firstChild? with
  | some child => some child
  | none => climb? (cursor.path.length + 1) cursor

/-- What is found at the nodes of a walk from the cursor on, in a number of
    rounds. -/
def walk {α : Type} (find? : Node → Option α) : Nat → Cursor → List α
  | 0, _ => []
  | budget + 1, cursor =>
    let later :=
      match cursor.next? with
      | some next => walk find? budget next
      | none => []
    (find? cursor.node).toList ++ later

end Cursor

/-- What is found at the nodes of a tree, in the order of a walk. -/
def Node.collect {α : Type} (find? : Node → Option α) (root : Node) : List α :=
  Cursor.walk find? root.size (Cursor.atRoot root)

end BlockMarkup.Script
