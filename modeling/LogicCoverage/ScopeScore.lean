import LogicCoverage.Attempt
import LogicCoverage.TreeScore
import LogicCoverage.LookupError

/-!
# Scoring a scope

The statistic of a scope sums up the trees of the statements it lists, each root once. The summary
of a scope adds up the cached statistics of all scopes that can be reached through child lists, each
scope once.
-/

namespace LogicCoverage

/-- The statement takes part in line coverage: its root is no control construct and stands on a real
line. -/
def Expression.hasLine (e : Expression) : Bool := !e.category.isControl && e.line ≠ 0

/-- What scoring a scope has found so far. -/
structure ScopeScore where
  db : Database
  marks : PassMarks
  comb : TreeCounts
  /-- Only the line counters are in use until the end. -/
  stat : Statistic

namespace ScopeScore

/-- Counts the line of a statement. -/
def countLine (stat : Statistic) (root : Expression) (stmt : Statement) : Checked Statistic := do
  if !root.hasLine then return stat
  else
    let stat := { stat with lineTotal := ← Counter.add stat.lineTotal 1 }
    if 0 < root.execCount then
      return { stat with lineHit := ← Counter.add stat.lineHit 1 }
    else if stmt.lineExcluded then
      return { stat with
        lineHit := ← Counter.add stat.lineHit 1
        lineExcluded := ← Counter.add stat.lineExcluded 1 }
    else return stat

/-- Scores one statement, unless its root was counted before. -/
def step (cfg : ScoringConfig) (s : ScopeScore) (id : StmtId) : Checked ScopeScore := do
  let stmt ← s.db.stmt id
  if s.marks.counted stmt.root then return s
  else
    let (counts, marks, db) ← s.db.computeTree stmt.root cfg s.marks
    let comb ← s.comb.add counts
    let stat ← countLine s.stat (← db.expr stmt.root) stmt
    return ⟨db, marks.mark stmt.root, comb, stat⟩

/-- The statistic of the whole scope. -/
def statistic (s : ScopeScore) : Statistic :=
  { s.stat with
    combHit := s.comb.hit, combTotal := s.comb.total, combExcluded := s.comb.excluded }

/-- Scores the statements of a scope afresh and caches the result. -/
def rescore (cfg : ScoringConfig) (id : ScopeId) (stmts : List StmtId) :
    Attempt Fault Database Statistic :=
  .update fun db => do
    let s ← stmts.foldlM (step cfg) ⟨db, .new db.exprs.size, .zero, .zero⟩
    let stat := s.statistic
    return (stat, s.db.modifyScope id fun scope => { scope with stat })

/-- Scores a scope afresh, if there is one. -/
def recalculate (cfg : ScoringConfig) (id : ScopeId) : Attempt Refusal Database Statistic := do
  let scope ← .ask fun db => found (db.scope? id) (.scopeNotFound id)
  (rescore cfg id scope.statements).mapError .fault

/-- The scope is looked up before anything is written. -/
theorem left_of_recalculate {cfg : ScoringConfig} {id : ScopeId} {db left : Database}
    {error : LookupError} (h : (recalculate cfg id).on db = (.error (.lookup error), left)) :
    left = db := by
  refine Attempt.left_of_ask_bind (fun scope h => ?_) h
  obtain ⟨fault, hfault, -⟩ := Attempt.of_mapError_error h
  cases hfault

end ScopeScore

/-- A statement root with the counts of its tree. -/
structure RootSummary where
  expr : ExprId
  line : UInt32
  /-- The root itself is excluded. -/
  excluded : Bool
  counts : TreeCounts
deriving DecidableEq

/-- The statement roots of a scope, by whether something is missing in their trees. -/
structure RootLists where
  covered : List RootSummary
  uncovered : List RootSummary
deriving DecidableEq

namespace RootLists

/-- Adds a root, unless its tree has no points. -/
def insert (lists : RootLists) (root : RootSummary) : RootLists :=
  if root.counts.total = 0 then lists
  else if root.counts.isComplete then { lists with covered := lists.covered ++ [root] }
  else { lists with uncovered := lists.uncovered ++ [root] }

/-- Scores the tree of one statement, unless its root was counted before. -/
def step (db : Database) (cfg : ScoringConfig) (s : RootLists × PassMarks) (id : StmtId) :
    Checked (RootLists × PassMarks) := do
  let (lists, marks) := s
  let root := (← db.stmt id).root
  if marks.counted root then return s
  else
    let score ← db.scoreTree root cfg marks
    let e ← db.expr root
    return (lists.insert ⟨root, e.line, e.excluded, score.counts⟩, score.marks.mark root)

end RootLists

namespace Database

variable (db : Database)

/-- What a recalculation that is not refused and meets no fault answers and leaves. -/
def recalcScope (id : ScopeId) (cfg : ScoringConfig) : Request (Statistic × Database) :=
  (ScopeScore.recalculate cfg id).outcome db

/-- A recalculation, with the database passed on from step to step. -/
theorem recalcScope_steps (id : ScopeId) (cfg : ScoringConfig) : db.recalcScope id cfg = (do
    let scope ← found (db.scope? id) (.scopeNotFound id)
    let start : ScopeScore := ⟨db, .new db.exprs.size, .zero, .zero⟩
    let s ← Checked.request (scope.statements.foldlM (ScopeScore.step cfg) start)
    let stat := s.statistic
    return (stat, s.db.modifyScope id fun scope => { scope with stat })) := by
  rw [recalcScope, ScopeScore.recalculate, Attempt.outcome_ask_bind]
  simp only [Attempt.outcome_mapError, ScopeScore.rescore, Attempt.outcome_update]
  cases found (db.scope? id) (.scopeNotFound id) with
  | error refusal => rfl
  | ok scope =>
    simp only [bind, Except.bind]
    cases scope.statements.foldlM (ScopeScore.step cfg)
      ⟨db, .new db.exprs.size, .zero, .zero⟩ <;> rfl

/-- Lists the statement roots of a scope with their counts; changes nothing. -/
def collectRoots (id : ScopeId) (cfg : ScoringConfig) : Request RootLists := do
  let scope ← found (db.scope? id) (.scopeNotFound id)
  let (lists, _) ← Checked.request
    (scope.statements.foldlM (RootLists.step db cfg) (⟨[], []⟩, .new db.exprs.size))
  return lists

/-- Adds up the scopes on the stack and those below them; `unvisited` are the scopes not yet
added. -/
def addScopes (unvisited : List ScopeId) (stack : List ScopeId) (total : Statistic) :
    Checked Statistic :=
  match stack with
  | [] => .ok total
  | id :: rest =>
    if _h : id ∈ unvisited then
      match db.scope id with
      | .error fault => .error fault
      | .ok scope =>
        match total.add scope.stat with
        | .error fault => .error fault
        | .ok total => addScopes (unvisited.erase id) (scope.children ++ rest) total
    else
      match db.scope id with
      | .error fault => .error fault
      | .ok _ => addScopes unvisited rest total
termination_by (unvisited.length, stack.length)
decreasing_by
  · have := List.length_erase_of_mem _h
    have := List.length_pos_of_mem _h
    exact Prod.Lex.left _ _ (by omega)
  · exact Prod.Lex.right _ (by simp)

/-- The cached statistics of a scope and of all scopes below it, added up. -/
def hierarchySummary (id : ScopeId) : Request Statistic := do
  let _ ← found (db.scope? id) (.scopeNotFound id)
  Checked.request (db.addScopes db.scopeIds [id] .zero)

end Database

end LogicCoverage
