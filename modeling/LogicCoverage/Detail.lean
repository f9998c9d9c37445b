import LogicCoverage.Placement

/-!
# What is missing

One row for every missing point, taken from the same lists that are counted.
-/

namespace LogicCoverage

structure Row where
  /-- The scored node; for a chain, its root. -/
  expr : ExprId
  /-- The node underlined. -/
  site : ExprId
  underline : Option UInt32
  missing : PointKind
  bit : Option UInt32
deriving DecidableEq

namespace Row

def what (row : Row) : String :=
  match row.missing with
  | .leftFalse => "left input never drove the AND false"
  | .rightFalse => "right input never drove the AND false"
  | .bothTrue => "inputs never jointly (1,1)"
  | .leftTrue => "left input never drove the OR true"
  | .rightTrue => "right input never drove the OR true"
  | .bothFalse => "inputs never jointly (0,0)"
  | .joint left right => "inputs never jointly (" ++ bitText left ++ "," ++ bitText right ++ ")"
  | .eventFired => "event never occurred"
  | .valueTrue => "value never true"
  | .valueFalse => "value never false"
  | .operandFalse => "operand " ++ row.site.text ++ " never false"
  | .operandTrue => "operand " ++ row.site.text ++ " never true"
  | .allTrue => "operands never all true"
  | .allFalse => "operands never all false"

/-- The missing combination in words. -/
def describe (row : Row) : String :=
  match row.bit with
  | some bit => "bit " ++ bit.toNat.repr ++ ": " ++ row.what
  | none => row.what

end Row

namespace Database

variable (db : Database)

/-- The rows of the missing points of a node. -/
def rows (id : ExprId) (points : Option (List Point)) : Checked (List Row) :=
  ((points.getD []).filter Point.missing).mapM fun p => do
    return ⟨id, p.site, (← db.expr p.site).underline, p.kind, p.bit⟩

/-- What a node misses. -/
def missingDetail (id : ExprId) (cfg : ScoringConfig) : Checked (List Row) := do
  db.rows id (← db.scoredPoints id cfg)

/-- Adds what a node misses where it sits. -/
def addRows (cfg : ScoringConfig) (found : List Row) (e : Expression) (p : Placement) :
    Checked (List Row) := do
  return found ++ (← db.rows p.id (← db.pointsAt e p cfg))

/-- What the nodes of a statement's tree miss, children first. -/
def statementDetail (stmt : StmtId) (cfg : ScoringConfig) : Checked (List Row) := do
  let root := (← db.stmt stmt).root
  let (rows, _) ← (db.tree root).visit (db.addRows cfg) 0 false []
  return rows

end Database

end LogicCoverage
