import LogicCoverage.Database

/-!
# The tree below a node

A tree follows child links downwards. Where a link leads to no node, or where the links never end,
the tree is broken off with the fault that whoever goes there meets. Its sides are unfolded only when
someone goes there: nodes may share children, so that the tree can be far larger than the database,
and a walk pays for the links it follows and for no others.
-/

namespace LogicCoverage

inductive Tree where
  | empty
  | node (id : ExprId) (expr : Expression) (left right : Unit → Tree)
  | broken (fault : Fault)

namespace Tree

/-- Puts the ids of an unbroken tree on top of others, the last one first. -/
def postOrderOnto : Tree → List ExprId → Checked (List ExprId)
  | empty, found => .ok found
  | broken fault, _ => .error fault
  | node id _ left right, found => do
    let found ← (left ()).postOrderOnto found
    let found ← (right ()).postOrderOnto found
    return id :: found

/-- The ids of an unbroken tree, children before their parent and left before right. -/
def postOrder (t : Tree) : Checked (List ExprId) := (t.postOrderOnto []).map List.reverse

theorem postOrderOnto_eq (t : Tree) (found : List ExprId) :
    t.postOrderOnto found = t.postOrder.map fun ids => ids.reverse ++ found := by
  unfold postOrder
  induction t generalizing found with
  | empty => simp [postOrderOnto, Except.map]
  | broken fault => rfl
  | node id expr left right ihl ihr =>
    simp only [postOrderOnto, bind, Except.bind]
    rw [ihl () found, ihl () []]
    cases (left ()).postOrderOnto [] with
    | error fault => rfl
    | ok l =>
      simp only [Except.map, List.reverse_reverse, List.append_nil]
      rw [ihr () (l ++ found), ihr () l]
      cases (right ()).postOrderOnto [] <;> simp [Except.map, pure, Except.pure]

@[simp] theorem postOrder_empty : empty.postOrder = .ok [] := rfl

@[simp] theorem postOrder_broken (fault : Fault) : (broken fault).postOrder = .error fault := rfl

/-- The left side comes first, then the right side, then the node. -/
theorem postOrder_node (id : ExprId) (expr : Expression) (left right : Unit → Tree) :
    (node id expr left right).postOrder = do
      let l ← (left ()).postOrder
      let r ← (right ()).postOrder
      return l ++ r ++ [id] := by
  rw [postOrder, postOrderOnto]
  simp only [postOrderOnto_eq, bind, Except.bind]
  cases (left ()).postOrder with
  | error fault => rfl
  | ok l => cases (right ()).postOrder <;> simp [Except.map, pure, Except.pure]

/-- Every leaf is a constant. A right side is not visited when the left one already decides. -/
def constantOnly : Tree → Checked Bool
  | empty => .ok true
  | broken fault => .error fault
  | node _ expr left right =>
    if expr.isLeaf then .ok (expr.category = .constant)
    else do if ← (left ()).constantOnly then (right ()).constantOnly else .ok false

/-- The depth of this tree as a child of a node at `depth`: gates of one family share a level. -/
def depthUnder (parent : Operator) (depth : UInt32) : Tree → Checked UInt32
  | empty => .ok depth
  | broken fault => .error fault
  | node _ expr _ _ => if parent.sameFamily expr.op then .ok depth else Counter.addOr .depthOverflow depth 1

end Tree

namespace Database

variable (db : Database)

/-- Follows at most `fuel` links downwards. -/
def descend : Nat → Option ExprId → Tree
  | _, none => .empty
  | 0, some _ => .broken .endlessLinks
  | fuel + 1, some id =>
    match db.expr id with
    | .ok expr => .node id expr (fun _ => descend fuel expr.left) (fun _ => descend fuel expr.right)
    | .error fault => .broken fault

/-- The tree below a node. One more link than there are nodes cannot be followed without meeting a
node twice. -/
def tree (id : ExprId) : Tree := db.descend (db.exprs.size + 1) (some id)

/-- Every node of the tree below a node, children first. -/
def subtree (id : ExprId) : Checked (List ExprId) := (db.tree id).postOrder

/-- Every leaf below a node is a constant. -/
def isConstantOnly (id : ExprId) : Checked Bool := (db.tree id).constantOnly

end Database

end LogicCoverage
