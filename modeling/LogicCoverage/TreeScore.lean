import LogicCoverage.Marks
import LogicCoverage.Placement
import LogicCoverage.Underlining

/-!
# Scoring a tree

The counts of a tree are those of its scored nodes. A node counted earlier in the same pass is left
out.
-/

namespace LogicCoverage

structure TreeCounts where
  /-- Points that read as covered, those excluded among them. -/
  hit : UInt32
  total : UInt32
  /-- Points covered by an exclusion alone. -/
  excluded : UInt32
deriving DecidableEq

namespace TreeCounts

def zero : TreeCounts := ⟨0, 0, 0⟩

instance : Inhabited TreeCounts := ⟨zero⟩

def add (a b : TreeCounts) : Checked TreeCounts := do
  return {
    hit := ← Counter.add a.hit b.hit.toNat
    total := ← Counter.add a.total b.total.toNat
    excluded := ← Counter.add a.excluded b.excluded.toNat }

/-- Counts a list of points. -/
def addPoints (a : TreeCounts) (points : List Point) : Checked TreeCounts := do
  return {
    hit := ← Counter.add a.hit (points.countP Point.covered)
    total := ← Counter.add a.total points.length
    excluded := ← Counter.add a.excluded (points.countP Point.waived) }

/-- Nothing is missing. -/
def isComplete (c : TreeCounts) : Bool := c.hit = c.total

end TreeCounts

/-- What a scoring has found so far. -/
structure TreeScore where
  counts : TreeCounts
  marks : PassMarks
  underlining : Underlining

namespace TreeScore

/-- Scores one node, unless this pass has counted it before. -/
def step (db : Database) (cfg : ScoringConfig) (s : TreeScore) (e : Expression) (p : Placement) :
    Checked TreeScore :=
  if p.isScored e cfg && !s.marks.counted p.id then do
    let s := { s with marks := s.marks.mark p.id }
    match ← db.nodePoints p.id cfg p.excluded with
    | none => return s
    | some points => do
      let counts ← s.counts.addPoints points
      let underlining ← s.underlining.unit points
      return { s with counts, underlining }
  else .ok s

end TreeScore

namespace Database

variable (db : Database)

/-- The node can be scored and this pass has not counted it yet. -/
def isMeasurable (id : ExprId) (marks : PassMarks) : Checked Bool := do
  if (← db.expr id).isScorable && !marks.counted id then return !(← db.isConstantOnly id)
  else return false

/-- Scores the tree below a node. -/
def scoreTree (root : ExprId) (cfg : ScoringConfig) (marks : PassMarks) : Checked TreeScore := do
  let tree := db.tree root
  let underlining ← Underlining.start db (← tree.postOrder)
  let (s, _) ← tree.visit (TreeScore.step db cfg) 0 false ⟨.zero, marks, underlining⟩
  return s

/-- Scores the tree below a node and renews its underline ids. -/
def computeTree (root : ExprId) (cfg : ScoringConfig) (marks : PassMarks) :
    Checked (TreeCounts × PassMarks × Database) := do
  let s ← db.scoreTree root cfg marks
  return (s.counts, s.marks, s.underlining.db)

/-- Clears the underline ids of a statement's tree. -/
def resetUnderlines (stmt : StmtId) : Checked Database := do
  let nodes ← db.subtree (← db.stmt stmt).root
  return nodes.foldl (fun db id => db.setUnderline id none) db

end Database

end LogicCoverage
