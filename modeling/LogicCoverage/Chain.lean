import LogicCoverage.Lineage
import LogicCoverage.Tree
import LogicCoverage.Settings

/-!
# Chains of gates

Gates of one family that feed each other form a chain. The topmost gate is the chain's root, where
the whole chain is scored; the nodes of other operators that feed it are its operands.
-/

namespace LogicCoverage

inductive ChainRole where
  /-- The topmost gate of a chain. -/
  | root
  /-- A gate below the root, scored with it and never alone. -/
  | interior
  /-- An operand of a chain. -/
  | boundary
deriving DecidableEq

def ChainRole.name : ChainRole → String
  | root => "Root"
  | interior => "Interior"
  | boundary => "Boundary"

/-- The operands under a gate of the given operator, left to right. -/
def Tree.operandsUnder (op : Operator) : Tree → Checked (List ExprId)
  | .empty => .ok []
  | .broken fault => .error fault
  | .node id expr left right =>
    if expr.op.sameFamily op then do
      let _ ← expr.pair id
      let l ← (left ()).operandsUnder expr.op
      let r ← (right ()).operandsUnder expr.op
      return l ++ r
    else .ok [id]

/-- The operands of the chain whose root is the root of this tree, left to right. -/
def Tree.operands : Tree → Checked (List ExprId)
  | .empty => .ok []
  | .broken fault => .error fault
  | .node id expr left right => do
    let _ ← expr.pair id
    let l ← (left ()).operandsUnder expr.op
    let r ← (right ()).operandsUnder expr.op
    return l ++ r

namespace Database

variable (db : Database)

/-- The parent is a gate of the same family. -/
def parentShares (e : Expression) : Checked Bool :=
  match e.parentExpr? with
  | some parent => do return (← db.expr parent).op.sameFamily e.op
  | none => .ok false

/-- The child is a gate of the same family as its parent. -/
def childShares (e : Expression) : Option ExprId → Checked Bool
  | some child => do return (← db.expr child).op.sameFamily e.op
  | none => .ok false

/-- Some child is a gate of the same family. -/
def someChildShares (e : Expression) : Checked Bool := do
  if ← db.childShares e e.left then .ok true else db.childShares e e.right

/-- A gate that has a neighbour of its family. -/
def inChain (e : Expression) : Checked Bool :=
  if e.category.isGate then do
    if ← db.parentShares e then .ok true else db.someChildShares e
  else .ok false

/-- The node feeds a chain and is not part of it. -/
def isChainBoundary (id : ExprId) (cfg : ScoringConfig) : Checked Bool :=
  if cfg.chains then do
    let e ← db.expr id
    match e.parentExpr? with
    | some parent => do
      let p ← db.expr parent
      return (← db.inChain p) && !p.op.sameFamily e.op
    | none => .ok false
  else .ok false

/-- The role of a gate, if it is a chain's root or interior. -/
def gateRole (e : Expression) (shares : Bool) : Checked (Option ChainRole) :=
  if !e.category.isGate then .ok none
  else if shares then .ok (some .interior)
  else do return if ← db.someChildShares e then some .root else none

/-- A node's part in a chain. A chain's root that feeds a chain of the other family is a root
here. -/
def chainRole (id : ExprId) (cfg : ScoringConfig) : Checked (Option ChainRole) :=
  if cfg.chains then do
    let e ← db.expr id
    let shares ← db.parentShares e
    match ← db.gateRole e shares with
    | some role => .ok (some role)
    | none => return if ← db.isChainBoundary id cfg then some .boundary else none
  else .ok none

/-- The operands of the chain rooted at a node, left to right. -/
def chainOperands (root : ExprId) : Checked (List ExprId) := (db.tree root).operands

/-- The node yields a value that its parent is already scored on. -/
def isSubsumed (id : ExprId) : Checked Bool := do
  let e ← db.expr id
  match e.category, e.parentExpr? with
  | .value, some parent => return (← db.expr parent).category.isMeasurable
  | _, _ => .ok false

end Database

end LogicCoverage
