import LogicCoverage.Operator
import LogicCoverage.Bits.History
import LogicCoverage.Fault

/-!
# Expression nodes
-/

namespace LogicCoverage

/-- Who owns a node. -/
inductive Link where
  | detached
  | expr (id : ExprId)
  | stmt (id : StmtId)
deriving DecidableEq

/-- The node above, if the owner is a node. -/
def Link.expr? : Link → Option ExprId
  | .expr id => some id
  | _ => none

structure Expression where
  op : Operator
  left : Option ExprId
  right : Option ExprId
  parent : Link
  width : UInt32
  line : UInt32
  /-- How often the line ran. -/
  execCount : UInt32
  /-- The node is written to, not read. -/
  lhs : Bool
  wasTrue : Bool
  wasFalse : Bool
  /-- The inputs were seen jointly at (0,0); likewise below. -/
  eval00 : Bool
  eval01 : Bool
  eval10 : Bool
  eval11 : Bool
  /-- What was seen of each bit of a wide value. -/
  history : Option BitHistory
  /-- The user asked not to count what this node and those below it miss. -/
  excluded : Bool
  /-- The number under which a report lists the node. -/
  underline : Option UInt32
deriving DecidableEq

namespace Expression

/-- A childless, ownerless node of which nothing was seen. -/
def new (op : Operator) (width line : UInt32) : Expression where
  op
  left := none
  right := none
  parent := .detached
  width
  line
  execCount := 0
  lhs := false
  wasTrue := false
  wasFalse := false
  eval00 := false
  eval01 := false
  eval10 := false
  eval11 := false
  history := none
  excluded := false
  underline := none

def category (e : Expression) : Category := e.op.category

/-- A statement owns the node. -/
def isRoot (e : Expression) : Bool :=
  match e.parent with
  | .stmt _ => true
  | _ => false

def parentExpr? (e : Expression) : Option ExprId := e.parent.expr?

/-- The children, left before right. -/
def children (e : Expression) : List ExprId := e.left.toList ++ e.right.toList

def isLeaf (e : Expression) : Bool := e.left.isNone && e.right.isNone

/-- The node's category is measurable and it is not an assignment target. -/
def isScorable (e : Expression) : Bool := e.category.isMeasurable && !e.lhs

/-- Both children of the two-input node `id`. -/
def pair (e : Expression) (id : ExprId) : Checked (ExprId × ExprId) :=
  match e.left, e.right with
  | some left, some right => .ok (left, right)
  | _, _ => .error (.missingOperand e.op id)

/-- The per-bit history that scoring the wide node `id` calls for. -/
def requireHistory (e : Expression) (id : ExprId) : Checked BitHistory :=
  match e.history with
  | some history => .ok history
  | none => .error (.missingHistory id)

end Expression

end LogicCoverage
