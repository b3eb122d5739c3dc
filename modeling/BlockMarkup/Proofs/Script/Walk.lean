import BlockMarkup.Proofs.Variable.Naming
import BlockMarkup.Script.Calls

/-!
# The walk through a tree

A tree may have any shape, and its nodes may be named or anonymous: the walk meets
the brackets and commas of a call as well as its arguments. An address tells every
node, and each move of a cursor leads to the address that it should, or nowhere if
there is no such node.

The walk moves a cursor up as well as down, and nothing it keeps says what it has
seen. What it has still to see can be read off the cursor: the tree that it stands
on, then the siblings to the right of each step down, the last step first. Each
round takes the first node off that list, so the walk ends, and it looks at every
node once, each before those below it and those to its right.

`Cursor.Walks` is the walk without a budget: two loops, one inside the other, that
may or may not come to an end. A derivation is a walk that does. The walk with a
budget finds the same, since one round per node is enough.

If the span of every node lies in that of its parent, and the spans of siblings
follow one another, the calls that are found begin one after another, and a call
is found before those that stand in it.
-/

namespace BlockMarkup.Script

/-! ## The nodes of a tree -/

namespace Node

/-- What holds of a node if it holds of its children holds of every node. -/
@[elab_as_elim]
theorem byChildren {motive : Node → Prop}
    (step : ∀ node, (∀ child ∈ node.children, motive child) → motive node) (node : Node) :
    motive node := by
  obtain ⟨kind, isNamed, role, span, children⟩ := node
  apply step
  intro child member
  exact byChildren step child
termination_by sizeOf node
decreasing_by
  have smaller := List.sizeOf_lt_of_mem member
  simp only [Node.mk.sizeOf_spec, Node.children] at smaller ⊢
  omega

/-- A node is listed first, then the trees below it. -/
theorem preorder_eq (node : Node) : node.preorder = node :: preorderAll node.children := by
  obtain ⟨kind, isNamed, role, span, children⟩ := node
  rw [preorder]
  rfl

/-- Trees side by side are listed one after another. -/
theorem preorderAll_eq_flatMap (nodes : List Node) : preorderAll nodes = nodes.flatMap preorder := by
  induction nodes with
  | nil => rw [preorderAll, List.flatMap_nil]
  | cons node rest hypothesis => rw [preorderAll, List.flatMap_cons, hypothesis]

/-- If each tree lists as many nodes as it has, the trees do together. -/
theorem length_preorderAll {nodes : List Node}
    (each : ∀ node ∈ nodes, node.preorder.length = node.size) :
    (preorderAll nodes).length = sizeAll nodes := by
  induction nodes with
  | nil => rw [preorderAll, sizeAll, List.length_nil]
  | cons node rest hypothesis =>
    obtain ⟨first, others⟩ := List.forall_mem_cons.mp each
    rw [preorderAll, sizeAll, List.length_append, first, hypothesis others]

/-- As many nodes are listed as there are. -/
theorem length_preorder (node : Node) : node.preorder.length = node.size := by
  induction node using byChildren with
  | step node hypothesis =>
    obtain ⟨kind, isNamed, role, span, children⟩ := node
    have counts : (preorderAll children).length = sizeAll children := length_preorderAll hypothesis
    rw [preorder, size, List.length_cons, counts, Nat.add_comm]

/-- A node of a tree is its root or a node of the tree of a child. -/
theorem mem_preorder_iff {node root : Node} :
    node ∈ root.preorder ↔ node = root ∨ ∃ child ∈ root.children, node ∈ child.preorder := by
  rw [preorder_eq, List.mem_cons, preorderAll_eq_flatMap, List.mem_flatMap]

/-- The nodes below a node stand together, directly after it. -/
theorem exists_preorder_eq {outer root : Node} (member : outer ∈ root.preorder) :
    ∃ before after, root.preorder = before ++ (outer.preorder ++ after) := by
  induction root using byChildren with
  | step root hypothesis =>
    rcases mem_preorder_iff.mp member with rfl | ⟨child, isChild, below⟩
    · exact ⟨[], [], by rw [List.append_nil, List.nil_append]⟩
    · obtain ⟨before, after, within⟩ := hypothesis child isChild below
      obtain ⟨left, right, children⟩ := List.append_of_mem isChild
      refine ⟨root :: (left.flatMap preorder ++ before), after ++ right.flatMap preorder, ?_⟩
      rw [preorder_eq, preorderAll_eq_flatMap, children, List.flatMap_append, List.flatMap_cons,
        within]
      simp only [List.cons_append, List.append_assoc]

end Node

/-! ## Where the moves lead -/

/-- The node at an address of a tree, which gives for every step down how many siblings
    are to the left, the last step first. -/
def Node.below? (root : Node) : List Nat → Option Node
  | [] => some root
  | index :: above => (root.below? above).bind fun parent => parent.children[index]?

namespace Cursor

/-- The cursor at an address of a tree, with the way to it from the root. -/
def cursorAt? (root : Node) : List Nat → Option Cursor
  | [] => some (atRoot root)
  | index :: above => do
    let parent ← cursorAt? root above
    let node ← parent.node.children[index]?
    return ⟨node, ⟨parent.node, parent.node.children.drop (index + 1)⟩ :: parent.path⟩

/-- Whether the cursors of a tree move as they should. Each stands on the node at its
    address; a move leads to the cursor at the address of the first child, of the next
    sibling or of the parent, and nowhere if there is no such node. The root has neither
    a sibling nor a parent. -/
structure MovesIn (root : Node) : Prop where
  node : ∀ address, (cursorAt? root address).map Cursor.node = root.below? address
  firstChild : ∀ address cursor, cursorAt? root address = some cursor →
    cursor.firstChild? = cursorAt? root (0 :: address)
  nextSibling : ∀ index above cursor, cursorAt? root (index :: above) = some cursor →
    cursor.nextSibling? = cursorAt? root ((index + 1) :: above)
  parent : ∀ index above cursor, cursorAt? root (index :: above) = some cursor →
    cursor.parent? = cursorAt? root above
  noSibling : (atRoot root).nextSibling? = none
  noParent : (atRoot root).parent? = none

section Moves

variable {root : Node} {cursor : Cursor}

/-- The cursor one step further down stands on a child of the node it came from. -/
theorem cursorAt?_cons_eq_some_iff {index : Nat} {above : List Nat} :
    cursorAt? root (index :: above) = some cursor ↔
      ∃ parent node, cursorAt? root above = some parent ∧
        parent.node.children[index]? = some node ∧
        cursor = ⟨node, ⟨parent.node, parent.node.children.drop (index + 1)⟩ :: parent.path⟩ := by
  simp only [cursorAt?, bind, pure, Option.bind_eq_some_iff, Option.some.injEq, @eq_comm _ _ cursor,
    exists_and_left]

/-- There is a cursor at an address if there is a node, and it stands on that node. -/
theorem map_node_cursorAt? (root : Node) (address : List Nat) :
    (cursorAt? root address).map node = root.below? address := by
  induction address with
  | nil => rfl
  | cons index above hypothesis =>
    rw [cursorAt?, Node.below?, ← hypothesis]
    cases cursorAt? root above with
    | none => rfl
    | some parent => cases child : parent.node.children[index]? <;> simp [child]

/-- Where there is no such node, there is no cursor at its address, and the move
    fails. -/
theorem firstChild?_eq_cursorAt? {address : List Nat}
    (stands : cursorAt? root address = some cursor) :
    cursor.firstChild? = cursorAt? root (0 :: address) := by
  rw [cursorAt?, stands]
  unfold firstChild?
  split
  · next leaf => simp [leaf]
  · next child right children => simp [children]

/-- The next sibling has one more sibling to the left. -/
theorem nextSibling?_eq_cursorAt? {index : Nat} {above : List Nat}
    (stands : cursorAt? root (index :: above) = some cursor) :
    cursor.nextSibling? = cursorAt? root ((index + 1) :: above) := by
  obtain ⟨parent, node, up, child, rfl⟩ := cursorAt?_cons_eq_some_iff.mp stands
  rw [cursorAt?, up]
  cases next : parent.node.children[index + 1]? with
  | none =>
    have last := List.drop_eq_nil_of_le (List.getElem?_eq_none_iff.mp next)
    simp [nextSibling?, next, last]
  | some sibling =>
    obtain ⟨bound, here⟩ := List.getElem?_eq_some_iff.mp next
    have ahead := List.drop_eq_getElem_cons bound
    simp [nextSibling?, next, ahead, here]

/-- The parent is one step less down. -/
theorem parent?_eq_cursorAt? {index : Nat} {above : List Nat}
    (stands : cursorAt? root (index :: above) = some cursor) :
    cursor.parent? = cursorAt? root above := by
  obtain ⟨parent, node, up, child, rfl⟩ := cursorAt?_cons_eq_some_iff.mp stands
  rw [up]
  rfl

/-- The cursors of every tree move as they should. -/
theorem movesIn (root : Node) : MovesIn root where
  node := map_node_cursorAt? root
  firstChild := fun _ _ => firstChild?_eq_cursorAt?
  nextSibling := fun _ _ _ => nextSibling?_eq_cursorAt?
  parent := fun _ _ _ => parent?_eq_cursorAt?
  noSibling := rfl
  noParent := rfl

end Moves

end Cursor

/-! ## What a cursor has ahead -/

namespace Cursor

/-- The nodes to the right of a way, those at its last step first. -/
def behind (path : List Ascent) : List Node :=
  path.flatMap fun ascent => Node.preorderAll ascent.right

/-- The nodes that a walk from the cursor has still to see. -/
def remaining (cursor : Cursor) : List Node :=
  cursor.node.preorder ++ behind cursor.path

/-- A walk from the root has the whole tree to see. -/
theorem remaining_atRoot (root : Node) : (atRoot root).remaining = root.preorder := by
  simp [remaining, atRoot, behind]

/-- A cursor sees its own node, then what is below it, then what is to the right. -/
theorem remaining_eq (cursor : Cursor) :
    cursor.remaining =
      cursor.node :: (Node.preorderAll cursor.node.children ++ behind cursor.path) := by
  rw [remaining, Node.preorder_eq, List.cons_append]

/-- The nodes below are ahead of the first child. -/
theorem remaining_firstChild {cursor child : Cursor} (moved : cursor.firstChild? = some child) :
    child.remaining = Node.preorderAll cursor.node.children ++ behind cursor.path := by
  unfold firstChild? at moved
  split at moved
  · cases moved
  · next first right children =>
    cases moved
    rw [children, Node.preorderAll]
    simp [remaining, behind, List.append_assoc]

/-- Without a first child there are no children. -/
theorem children_of_firstChild_none {cursor : Cursor} (none : cursor.firstChild? = none) :
    cursor.node.children = [] := by
  unfold firstChild? at none
  split at none
  · next leaf => exact leaf
  · cases none

/-- The nodes to the right are ahead of the next sibling. -/
theorem remaining_nextSibling {cursor sibling : Cursor}
    (moved : cursor.nextSibling? = some sibling) : sibling.remaining = behind cursor.path := by
  unfold nextSibling? at moved
  split at moved
  · next parent first right above path =>
    cases moved
    simp [remaining, behind, path, Node.preorderAll, List.append_assoc]
  · cases moved

/-- Without a next sibling the nodes to the right are those of the parent. -/
theorem behind_parent {cursor parent : Cursor} (none : cursor.nextSibling? = none)
    (moved : cursor.parent? = some parent) : behind parent.path = behind cursor.path := by
  obtain ⟨node, path⟩ := cursor
  cases path with
  | nil => cases moved
  | cons ascent above =>
    cases moved
    obtain ⟨up, right⟩ := ascent
    cases right with
    | nil => simp [behind, Node.preorderAll]
    | cons sibling others => cases none

/-- Without a parent the cursor stands at the root. -/
theorem path_of_parent_none {cursor : Cursor} (none : cursor.parent? = none) :
    cursor.path = [] := by
  obtain ⟨node, path⟩ := cursor
  cases path with
  | nil => rfl
  | cons ascent above => cases none

/-! ## The walk without a budget -/

/-- The inner loop: where climbing from a cursor leads. It goes to the next sibling
    if there is one, to the parent otherwise, and ends at the root. -/
inductive Climbs : Cursor → Option Cursor → Prop where
  | sibling {cursor next : Cursor} (moved : cursor.nextSibling? = some next) :
      Climbs cursor (some next)
  | parent {cursor parent : Cursor} {next : Option Cursor}
      (noSibling : cursor.nextSibling? = none) (moved : cursor.parent? = some parent)
      (onward : Climbs parent next) : Climbs cursor next
  | root {cursor : Cursor} (noSibling : cursor.nextSibling? = none)
      (noParent : cursor.parent? = none) : Climbs cursor none

/-- The outer loop: what a walk from a cursor finds. It looks at the node, goes
    down if it can and otherwise to where climbing leads, and ends if climbing
    does. -/
inductive Walks {α : Type} (find? : Node → Option α) : Cursor → List α → Prop where
  | down {cursor child : Cursor} {later : List α} (moved : cursor.firstChild? = some child)
      (onward : Walks find? child later) :
      Walks find? cursor ((find? cursor.node).toList ++ later)
  | across {cursor next : Cursor} {later : List α} (leaf : cursor.firstChild? = none)
      (climbed : Climbs cursor (some next)) (onward : Walks find? next later) :
      Walks find? cursor ((find? cursor.node).toList ++ later)
  | ended {cursor : Cursor} (leaf : cursor.firstChild? = none) (climbed : Climbs cursor none) :
      Walks find? cursor (find? cursor.node).toList

/-- Climbing leads to the first node to the right, if there is one. -/
theorem Climbs.behind_eq {cursor : Cursor} {next : Option Cursor} (climbed : Climbs cursor next) :
    behind cursor.path = (next.map remaining).getD [] := by
  induction climbed with
  | sibling moved => exact (remaining_nextSibling moved).symm
  | parent noSibling moved _ hypothesis => rw [← behind_parent noSibling moved, hypothesis]
  | root _ noParent =>
    rw [path_of_parent_none noParent]
    rfl

/-- Climbing ends, with one round for each step up. -/
theorem climbs_climb? {budget : Nat} {cursor : Cursor} (enough : cursor.path.length < budget) :
    Climbs cursor (climb? budget cursor) := by
  induction budget generalizing cursor with
  | zero => cases enough
  | succ budget hypothesis =>
    unfold climb?
    cases sibling : cursor.nextSibling? with
    | some next => exact .sibling sibling
    | none =>
      cases up : cursor.parent? with
      | none => exact .root sibling up
      | some parent =>
        have shorter : parent.path.length < budget := by
          obtain ⟨node, path⟩ := cursor
          cases path with
          | nil => cases up
          | cons ascent above =>
            cases up
            exact Nat.lt_of_succ_lt_succ enough
        exact .parent sibling up (hypothesis shorter)

/-- Going down takes the node off what is ahead. -/
theorem remaining_of_down {cursor child : Cursor} (moved : cursor.firstChild? = some child) :
    cursor.remaining = cursor.node :: child.remaining := by
  rw [remaining_eq, remaining_firstChild moved]

/-- At a leaf climbing takes the node off what is ahead. -/
theorem remaining_of_leaf {cursor : Cursor} {next : Option Cursor}
    (leaf : cursor.firstChild? = none) (climbed : Climbs cursor next) :
    cursor.remaining = cursor.node :: (next.map remaining).getD [] := by
  rw [remaining_eq, children_of_firstChild_none leaf, climbed.behind_eq, Node.preorderAll,
    List.nil_append]

/-- One round of a walk takes one node off what is ahead. -/
theorem remaining_next? (cursor : Cursor) :
    cursor.remaining = cursor.node :: (cursor.next?.map remaining).getD [] := by
  unfold next?
  cases moved : cursor.firstChild? with
  | some child => exact remaining_of_down moved
  | none => exact remaining_of_leaf moved (climbs_climb? (Nat.lt_succ_self cursor.path.length))

section Found

variable {α : Type} {find? : Node → Option α}

/-- What is found at the first of some nodes comes first. -/
theorem filterMap_cons_eq_append (node : Node) (rest : List Node) :
    (node :: rest).filterMap find? = (find? node).toList ++ rest.filterMap find? := by
  cases found : find? node with
  | none => rw [List.filterMap_cons_none found, Option.toList_none, List.nil_append]
  | some value =>
    rw [List.filterMap_cons_some found, Option.toList_some, List.singleton_append]

/-- A walk that ends has found what is to be found among the nodes ahead. -/
theorem Walks.eq_filterMap {cursor : Cursor} {found : List α}
    (walks : Walks find? cursor found) : found = cursor.remaining.filterMap find? := by
  induction walks with
  | down moved _ hypothesis =>
    rw [remaining_of_down moved, filterMap_cons_eq_append, hypothesis]
  | across leaf climbed _ hypothesis =>
    rw [remaining_of_leaf leaf climbed, filterMap_cons_eq_append, hypothesis]
    rfl
  | ended leaf climbed =>
    rw [remaining_of_leaf leaf climbed, filterMap_cons_eq_append]
    exact (List.append_nil _).symm

/-- Every walk ends. The induction is on the number of nodes ahead. -/
theorem exists_walks (cursor : Cursor) : ∃ found, Walks find? cursor found := by
  induction ahead : cursor.remaining.length generalizing cursor with
  | zero =>
    rw [remaining_eq] at ahead
    cases ahead
  | succ count hypothesis =>
    cases moved : cursor.firstChild? with
    | some child =>
      rw [remaining_of_down moved] at ahead
      obtain ⟨later, onward⟩ := hypothesis child (Nat.succ_inj.mp ahead)
      exact ⟨_, .down moved onward⟩
    | none =>
      have climbed := climbs_climb? (Nat.lt_succ_self cursor.path.length)
      cases next : climb? (cursor.path.length + 1) cursor with
      | none =>
        rw [next] at climbed
        exact ⟨_, .ended moved climbed⟩
      | some other =>
        rw [next] at climbed
        rw [remaining_of_leaf moved climbed] at ahead
        obtain ⟨later, onward⟩ := hypothesis other (Nat.succ_inj.mp ahead)
        exact ⟨_, .across moved climbed onward⟩

/-- A walk ends with what is to be found among the nodes ahead, and with nothing
    else. -/
theorem walks_iff {cursor : Cursor} {found : List α} :
    Walks find? cursor found ↔ found = cursor.remaining.filterMap find? := by
  constructor
  · exact Walks.eq_filterMap
  · rintro rfl
    have ended : ∃ found, Walks find? cursor found := exists_walks cursor
    obtain ⟨found, walks⟩ := ended
    rwa [← walks.eq_filterMap]

/-- A budget of some rounds is enough for as many nodes. -/
theorem walk_eq_take (budget : Nat) (cursor : Cursor) :
    walk find? budget cursor = (cursor.remaining.take budget).filterMap find? := by
  induction budget generalizing cursor with
  | zero => rfl
  | succ budget hypothesis =>
    rw [remaining_next?, List.take_succ_cons, filterMap_cons_eq_append, walk]
    cases cursor.next? with
    | none => rw [Option.map_none, Option.getD_none, List.take_nil, List.filterMap_nil]
    | some next => exact congrArg _ (hypothesis next)

end Found

end Cursor

/-- What a walk through a tree finds is what there is to be found, node by node. -/
theorem Node.collect_eq {α : Type} (find? : Node → Option α) (root : Node) :
    root.collect find? = root.preorder.filterMap find? := by
  rw [collect, Cursor.walk_eq_take, Cursor.remaining_atRoot, ← root.length_preorder,
    List.take_length]

end BlockMarkup.Script

namespace BlockMarkup

/-! ## Spans of nodes -/

/-- Whether another span begins no earlier than a span, and lies in it or follows
    it. -/
def Span.Leads (earlier later : Span) : Prop :=
  earlier.start ≤ later.start ∧ (earlier.Contains later ∨ earlier.stop ≤ later.start)

namespace Script

namespace Node

/-- Whether a node has a span that holds those of its children, one after
    another. -/
structure HoldsChildren (node : Node) : Prop where
  ordered : node.span.Ordered
  inside : ∀ child ∈ node.children, node.span.Contains child.span
  apart : node.children.Pairwise fun earlier later => earlier.span.stop ≤ later.span.start

/-- Whether every node of a tree holds its children. -/
def SpansNested (root : Node) : Prop :=
  ∀ node ∈ root.preorder, node.HoldsChildren

/-- The spans of a node and its children can be compared. -/
instance (node : Node) : Decidable node.HoldsChildren :=
  decidable_of_iff (node.span.Ordered ∧ (∀ child ∈ node.children, node.span.Contains child.span) ∧
      node.children.Pairwise fun earlier later => earlier.span.stop ≤ later.span.start)
    ⟨fun ⟨ordered, inside, apart⟩ => ⟨ordered, inside, apart⟩,
      fun holds => ⟨holds.ordered, holds.inside, holds.apart⟩⟩

/-- The spans of a tree can be compared node by node. -/
instance (root : Node) : Decidable root.SpansNested :=
  inferInstanceAs (Decidable (∀ node ∈ root.preorder, node.HoldsChildren))

variable {root : Node}

/-- The root of a nested tree holds its children. -/
theorem SpansNested.holdsChildren (nested : root.SpansNested) : root.HoldsChildren :=
  nested root (mem_preorder_iff.mpr (.inl rfl))

/-- The trees below a nested tree are nested. -/
theorem SpansNested.child (nested : root.SpansNested) {child : Node}
    (isChild : child ∈ root.children) : child.SpansNested := by
  intro node member
  exact nested node (mem_preorder_iff.mpr (.inr ⟨child, isChild, member⟩))

/-- Every node of a tree lies in its root. -/
theorem SpansNested.contains (nested : root.SpansNested) {node : Node}
    (member : node ∈ root.preorder) : root.span.Contains node.span := by
  induction root using byChildren with
  | step root hypothesis =>
    rcases mem_preorder_iff.mp member with rfl | ⟨child, isChild, below⟩
    · exact ⟨Nat.le_refl _, Nat.le_refl _⟩
    · have inChild := hypothesis child isChild (nested.child isChild) below
      have inRoot := nested.holdsChildren.inside child isChild
      exact ⟨Nat.le_trans inRoot.1 inChild.1, Nat.le_trans inChild.2 inRoot.2⟩

/-- The nodes of a tree begin one after another, and of two nodes the earlier holds
    the later or ends before it. -/
theorem SpansNested.pairwise_leads (nested : root.SpansNested) :
    root.preorder.Pairwise fun earlier later => earlier.span.Leads later.span := by
  induction root using byChildren with
  | step root hypothesis =>
    rw [preorder_eq, List.pairwise_cons, preorderAll_eq_flatMap, List.pairwise_flatMap]
    refine ⟨?_, ?_, ?_⟩
    · intro node below
      have inRoot : root.span.Contains node.span :=
        nested.contains (mem_preorder_iff.mpr (.inr (List.mem_flatMap.mp below)))
      exact ⟨inRoot.1, .inl inRoot⟩
    · intro child isChild
      exact hypothesis child isChild (nested.child isChild)
    · refine nested.holdsChildren.apart.imp_of_mem ?_
      intro left right isLeft isRight apart earlier inLeft later inRight
      have leftHolds := (nested.child isLeft).contains inLeft
      have rightHolds := (nested.child isRight).contains inRight
      have ordered := (nested.child isLeft earlier inLeft).ordered
      have follows : earlier.span.stop ≤ later.span.start :=
        Nat.le_trans leftHolds.2 (Nat.le_trans apart rightHolds.1)
      exact ⟨Nat.le_trans ordered follows, .inr follows⟩

/-! ## The calls of a tree -/

/-- Only a call is reported, and with its own span. -/
theorem memberCall?_eq_some {source : Text} {node : Node} {call : MemberCall}
    (found : node.memberCall? source = some call) : node.kind = .call ∧ call.span = node.span := by
  unfold memberCall? at found
  split at found
  · next isCall =>
    refine ⟨isCall, ?_⟩
    obtain ⟨function, _, found⟩ := Option.bind_eq_some_iff.mp found
    obtain ⟨object, _, found⟩ := Option.bind_eq_some_iff.mp found
    obtain ⟨property, _, found⟩ := Option.bind_eq_some_iff.mp found
    split at found
    · obtain ⟨objectText, _, found⟩ := Option.bind_eq_some_iff.mp found
      obtain ⟨propertyText, _, found⟩ := Option.bind_eq_some_iff.mp found
      cases found
      rfl
    · cases found
  · cases found

/-- No node but a call is found. -/
theorem filterMap_memberCall? (source : Text) (nodes : List Node) :
    nodes.filterMap (memberCall? source) =
      (nodes.filter (·.kind = .call)).filterMap (memberCall? source) := by
  rw [List.filterMap_filter]
  congr
  funext node
  by_cases isCall : node.kind = .call
  · rw [if_pos (decide_eq_true isCall)]
  · rw [if_neg (mt of_decide_eq_true isCall), memberCall?, if_neg isCall]

end Node

/-- A cursor in a tree moves as it should, and the walk that it makes ends, whatever the
    tree. It finds what a node by node reading of the calls in the tree makes of them. A
    call stands directly before the calls below it. If the spans of the nodes are nested,
    the calls begin one after another, and of two calls the earlier holds the later or
    ends before it. -/
theorem memberCalls_walk (source : Text) (root : Node) :
    Cursor.MovesIn root ∧
    (∀ found, Cursor.Walks (Node.memberCall? source) (.atRoot root) found ↔
      found = memberCalls source root) ∧
    memberCalls source root =
      (root.preorder.filter (·.kind = .call)).filterMap (Node.memberCall? source) ∧
    (∀ outer ∈ root.preorder, ∃ before after,
      memberCalls source root = before ++ ((outer.memberCall? source).toList ++
        ((Node.preorderAll outer.children).filterMap (Node.memberCall? source) ++ after))) ∧
    (root.SpansNested →
      (memberCalls source root).Pairwise fun earlier later => earlier.span.Leads later.span) := by
  have listed : memberCalls source root = root.preorder.filterMap (Node.memberCall? source) :=
    root.collect_eq (Node.memberCall? source)
  refine ⟨Cursor.movesIn root, ?_, ?_, ?_, ?_⟩
  · intro found
    rw [Cursor.walks_iff, Cursor.remaining_atRoot, listed]
  · rw [listed, Node.filterMap_memberCall?]
  · intro outer member
    obtain ⟨before, after, parted⟩ := Node.exists_preorder_eq member
    refine ⟨before.filterMap (Node.memberCall? source),
      after.filterMap (Node.memberCall? source), ?_⟩
    rw [listed, parted, outer.preorder_eq, List.filterMap_append, List.filterMap_append,
      Cursor.filterMap_cons_eq_append, List.append_assoc]
  · intro nested
    rw [listed]
    refine nested.pairwise_leads.filterMap _ ?_
    intro earlier later leads first firstFound second secondFound
    rw [(Node.memberCall?_eq_some firstFound).2, (Node.memberCall?_eq_some secondFound).2]
    exact leads

/-- A call among the arguments of a call. -/
def callInCall : Text := "bru.setVar('a', bru.getVar())".toList

/-- The node of a punctuator of one character. -/
def punctuatorAt (offset : Nat) : Node := .mk .other false .plain (.ofLength offset 1) []

/-- The node of a member of an object whose name has three letters. -/
def memberBetween (start stop : Nat) : Node :=
  .mk .member true .function ⟨start, stop⟩
    [.mk .identifier true .object (.ofLength start 3) [],
      punctuatorAt (start + 3),
      .mk .property true .property ⟨start + 4, stop⟩ []]

/-- The tree of the call in a call. Quotes, dots, brackets and the comma are anonymous
    nodes of it. -/
def callInCallTree : Node :=
  .mk .program true .plain ⟨0, 29⟩ [.mk .other true .plain ⟨0, 29⟩
    [.mk .call true .plain ⟨0, 29⟩
      [memberBetween 0 10,
        .mk .arguments true .arguments ⟨10, 29⟩
          [punctuatorAt 10,
            .mk .string true .plain ⟨11, 14⟩
              [punctuatorAt 11, .mk .other true .plain ⟨12, 13⟩ [], punctuatorAt 13],
            punctuatorAt 14,
            .mk .call true .plain ⟨16, 28⟩
              [memberBetween 16 26,
                .mk .arguments true .arguments ⟨26, 28⟩ [punctuatorAt 26, punctuatorAt 27]],
            punctuatorAt 28]]]]

/-- The outer call is found with its literal, not with the bracket before it, and the
    inner call without an argument. The cursor comes from the bracket to the literal. -/
theorem memberCalls_walk_callInCall :
    callInCallTree.SpansNested ∧
      (∃ outer inner, memberCalls callInCall callInCallTree = [outer, inner] ∧
        outer.argument = some (.literal ⟨11, 14⟩ ⟨12, 13⟩) ∧ inner.argument = none ∧
        outer.span.Leads inner.span) ∧
      (∃ bracket literal, Cursor.cursorAt? callInCallTree [0, 1, 0, 0] = some bracket ∧
        bracket.node.isNamed = false ∧ bracket.nextSibling? = some literal ∧
        literal.node.kind = .string) ∧
      Cursor.Walks (Node.memberCall? callInCall) (.atRoot callInCallTree)
        (memberCalls callInCall callInCallTree) := by
  have nested : callInCallTree.SpansNested := by decide +kernel
  obtain ⟨moves, ended, _, _, spans⟩ := memberCalls_walk callInCall callInCallTree
  have found : memberCalls callInCall callInCallTree =
      [⟨"bru".toList, "setVar".toList, ⟨0, 29⟩, some (.literal ⟨11, 14⟩ ⟨12, 13⟩)⟩,
        ⟨"bru".toList, "getVar".toList, ⟨16, 28⟩, none⟩] := by
    decide +kernel
  have inOrder := spans nested
  rw [found, List.pairwise_pair] at inOrder
  have moved := moves.nextSibling 0 [1, 0, 0] _ rfl
  exact ⟨nested, ⟨_, _, found, rfl, rfl, inOrder⟩, ⟨_, _, rfl, rfl, moved, rfl⟩,
    (ended _).mpr rfl⟩

end Script

end BlockMarkup
