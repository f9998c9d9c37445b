import LogicCoverage.Database

/-!
# The nodes above a node

A lineage follows parent links upwards, nearest first. It ends at the top of the tree, or breaks off
where a link leads to no node or back into the lineage.
-/

namespace LogicCoverage

inductive Lineage where
  | top
  | up (id : ExprId) (node : Expression) (rest : Lineage)
  | broken (fault : Fault)

namespace Lineage

/-- Whether some node of the lineage satisfies the test; the nodes beyond the first are not
visited. -/
def any (p : ExprId → Expression → Bool) : Lineage → Checked Bool
  | top => .ok false
  | broken fault => .error fault
  | up id node rest => if p id node then .ok true else rest.any p

/-- The part that comes before a given node. -/
def upTo (stop : ExprId) : Lineage → Lineage
  | top => top
  | broken fault => broken fault
  | up id node rest => if id = stop then top else up id node (rest.upTo stop)

/-- The ids of an unbroken lineage, nearest first. -/
def ids : Lineage → Checked (List ExprId)
  | top => .ok []
  | broken fault => .error fault
  | up id _ rest => do return id :: (← rest.ids)

end Lineage

namespace Database

variable (db : Database)

/-- Follows at most `fuel` links. -/
def climb : Nat → Link → Lineage
  | fuel, .expr id =>
    match fuel with
    | 0 => .broken .endlessLinks
    | fuel + 1 =>
      match db.expr id with
      | .ok node => .up id node (climb fuel node.parent)
      | .error fault => .broken fault
  | _, _ => .top

/-- The nodes above the owner of a link. One more link than there are nodes cannot be followed
without meeting a node twice. -/
def lineage (owner : Link) : Lineage := db.climb (db.exprs.size + 1) owner

/-- The nodes above a node, nearest first. -/
def ancestors (id : ExprId) : Checked (List ExprId) := do
  (db.lineage (← db.expr id).parent).ids

/-- The topmost node above a node, or the node itself. -/
def rootOf (id : ExprId) : Checked ExprId := do
  return ((← db.ancestors id).getLast?).getD id

/-- The statement that owns the tree of a node. -/
def statementOf (id : ExprId) : Checked (Option StmtId) := do
  match (← db.expr (← db.rootOf id)).parent with
  | .stmt stmt => return some stmt
  | _ => return none

/-- Whether some node above this one is excluded. -/
def excludedAbove (id : ExprId) : Checked Bool := do
  (db.lineage (← db.expr id).parent).any fun _ node => node.excluded

end Database

end LogicCoverage
