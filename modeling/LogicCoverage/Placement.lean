import LogicCoverage.Point

/-!
# Where a node sits in its tree

Scoring needs three facts about a node's surroundings: its depth, whether it or a node above it is
excluded, and whether all leaves below it are constants. `Tree.visit` carries them along a walk over
the whole tree; `Database.placement` finds them for a single node.
-/

namespace LogicCoverage

structure Placement where
  id : ExprId
  /-- Steps from the top of the tree; steps between gates of one family do not count. -/
  depth : UInt32
  /-- The node or one above it is excluded. -/
  excluded : Bool
  /-- Every leaf below the node is a constant. -/
  constantOnly : Bool
deriving DecidableEq

/-- Whether all leaves below a node are constants, given whether that is so below each child. -/
def Expression.constantAfter (e : Expression) (childrenConstant : Bool) : Bool :=
  if e.isLeaf then e.category = .constant else childrenConstant

/-- Takes a step at every node, children first and left before right. Also returns whether all
leaves are constants. -/
def Tree.visit {σ : Type} (step : σ → Expression → Placement → Checked σ) :
    Tree → UInt32 → Bool → σ → Checked (σ × Bool)
  | .empty, _, _, s => .ok (s, true)
  | .broken fault, _, _, _ => .error fault
  | .node id expr left right, depth, above, s => do
    let excluded := above || expr.excluded
    let leftDepth ← (left ()).depthUnder expr.op depth
    let (s, leftConstant) ← (left ()).visit step leftDepth excluded s
    let rightDepth ← (right ()).depthUnder expr.op depth
    let (s, rightConstant) ← (right ()).visit step rightDepth excluded s
    let constantOnly := expr.constantAfter (leftConstant && rightConstant)
    let s ← step s expr ⟨id, depth, excluded, constantOnly⟩
    return (s, constantOnly)

namespace Database

variable (db : Database)

/-- The depth of a node's left or right child, given its own. -/
def childDepth (node : ExprId) (isLeft : Bool) (depth : UInt32) : Checked UInt32 := do
  let e ← db.expr node
  match if isLeft then e.left else e.right with
  | some child =>
    if e.op.sameFamily (← db.expr child).op then .ok depth
    else Counter.addOr .depthOverflow depth 1
  | none => Counter.addOr .depthOverflow depth 1

/-- The depth of the last node of a path, given that of the first. -/
def depthAlong (depth : UInt32) : List ExprId → Checked UInt32
  | node :: child :: rest => do
    let isLeft : Bool := (← db.expr node).left = some child
    let depth ← db.childDepth node isLeft depth
    depthAlong depth (child :: rest)
  | _ => .ok depth

/-- The depth of a node in its tree. -/
def depthOf (id : ExprId) : Checked UInt32 := do
  db.depthAlong 0 ((← db.ancestors id).reverse ++ [id])

/-- The node or one above it is excluded. -/
def isEffectivelyExcluded (id : ExprId) : Checked Bool := do
  if (← db.expr id).excluded then .ok true else db.excludedAbove id

/-- Where a node sits, found from the node alone. -/
def placement (id : ExprId) : Checked Placement := do
  let depth ← db.depthOf id
  let excluded ← db.isEffectivelyExcluded id
  let constantOnly ← db.isConstantOnly id
  return ⟨id, depth, excluded, constantOnly⟩

end Database

/-- A level within the depth budget. -/
def ScoringConfig.reaches (cfg : ScoringConfig) (depth : UInt32) : Bool :=
  match cfg.depthBudget with
  | some budget => depth ≤ budget
  | none => true

/-- The node is scored where it sits: it is scorable, not constant, and within the budget. -/
def Placement.isScored (p : Placement) (e : Expression) (cfg : ScoringConfig) : Bool :=
  e.isScorable && !p.constantOnly && cfg.reaches p.depth

namespace Database

variable (db : Database)

/-- The points of a node where it sits. -/
def pointsAt (e : Expression) (p : Placement) (cfg : ScoringConfig) :
    Checked (Option (List Point)) :=
  if p.isScored e cfg then db.nodePoints p.id cfg p.excluded else .ok none

/-- The points a node is scored on; none if it is not scored on its own. -/
def scoredPoints (id : ExprId) (cfg : ScoringConfig) : Checked (Option (List Point)) := do
  let p ← db.placement id
  db.pointsAt (← db.expr id) p cfg

end Database

end LogicCoverage
