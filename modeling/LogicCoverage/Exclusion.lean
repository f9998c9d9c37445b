import LogicCoverage.ScopeScore

/-!
# Exclusions

Toggling one node changes the counts of one statement's tree only. That tree is scored before and
after, and the difference is added to the cached statistic of every scope that lists the statement.
-/

namespace LogicCoverage

/-- What a toggle changed. -/
structure ExclusionOutcome where
  /-- The statement whose tree was scored. -/
  stmt : StmtId
  combHitDelta : Int
  combExcludedDelta : Int
  /-- Applied to the excluded lines as well. -/
  lineHitDelta : Int
  /-- A node above is excluded, so that nothing is to be seen of the toggle. -/
  shadowed : Bool
  /-- The scopes whose statistic was moved. -/
  scopes : List ScopeId
deriving DecidableEq

namespace Exclusion

/-- An exclusion changes what is covered, never what there is to cover. -/
def checkTotals (before after : TreeCounts) : Checked Unit :=
  if before.total = after.total then .ok ()
  else .error (.pointCountChanged before.total after.total)

/-- Moves one counter of a scope. -/
def shift (counter : UInt32) (delta : Int) (name : CounterName) (scope : ScopeId) :
    Checked UInt32 :=
  match Counter.shift? counter delta with
  | some next => .ok next
  | none => .error (.staleCounter name scope)

/-- Moves the counters of a scope. -/
def shiftStat (o : ExclusionOutcome) (scope : ScopeId) (s : Statistic) : Checked Statistic := do
  return { s with
    combHit := ← shift s.combHit o.combHitDelta .combHit scope
    combExcluded := ← shift s.combExcluded o.combExcludedDelta .combExcluded scope
    lineHit := ← shift s.lineHit o.lineHitDelta .lineHit scope
    lineExcluded := ← shift s.lineExcluded o.lineHitDelta .lineExcluded scope }

/-- Moves the counters of one scope of the database. -/
def shiftScope (o : ExclusionOutcome) (db : Database) (id : ScopeId) : Checked Database := do
  let stat ← shiftStat o id (← db.scope id).stat
  return db.modifyScope id fun scope => { scope with stat }

end Exclusion

namespace Database

variable (db : Database)

/-- The statement that contains an expression, if a scope lists it. -/
def locate (scope : ScopeId) (expr : ExprId) : Request StmtId := do
  let s ← found (db.scope? scope) (.scopeNotFound scope)
  let _ ← found (db.expr? expr) (.exprNotFound expr)
  let stmt ← Checked.request (db.statementOf expr)
  found (stmt.filter s.statements.contains) (.exprNotInScope expr scope)

/-- The line of a statement moves with its root's exclusion if that was asked for, the line counts
at all, and it never ran. -/
def movesLine (stmt : Statement) (root : Expression) (expr : ExprId) (excluded alsoLine : Bool) :
    Bool :=
  expr = stmt.root && alsoLine && root.hasLine && root.execCount = 0 && stmt.lineExcluded ≠ excluded

/-- The first node below an expression that carries a number. -/
def findByUnderline (expr : ExprId) (underline : UInt32) : Request ExprId := do
  let _ ← found (db.expr? expr) (.exprNotFound expr)
  let nodes ← Checked.request (db.subtree expr)
  found (nodes.find? fun id => (db.expr? id).any fun e => e.underline = some underline)
    (.underlineNotFound expr underline)

/-- The scope of that name. -/
def scopeByName (name : String) : Request ScopeId :=
  found (db.findScope? name) (.scopeNameNotFound name)

end Database

namespace Exclusion

/-- Scores a tree and renews its numbers. -/
def scoreTree (root : ExprId) (cfg : ScoringConfig) (marks : PassMarks) :
    Attempt Fault Database (TreeCounts × PassMarks) :=
  .update fun db => do
    let (counts, marks, db) ← db.computeTree root cfg marks
    return ((counts, marks), db)

/-- Sets the exclusion of an expression of the given statement. -/
def toggle (cfg : ScoringConfig) (id : StmtId) (expr : ExprId) (excluded alsoLine : Bool) :
    Attempt Fault Database ExclusionOutcome := do
  let stmt ← .ask fun db => db.stmt id
  let shadowed ← .ask fun db => db.excludedAbove expr
  let (before, marks) ← scoreTree stmt.root cfg (.new (← get).exprs.size)
  modify fun db => db.modifyExpr expr fun e => { e with excluded }
  let (after, _) ← scoreTree stmt.root cfg marks.beginPass
  Attempt.ask fun _ => checkTotals before after
  let root ← .ask fun db => db.expr stmt.root
  let moves := Database.movesLine stmt root expr excluded alsoLine
  modify fun db =>
    if moves then db.modifyStmt id fun s => { s with lineExcluded := excluded } else db
  let outcome : ExclusionOutcome := {
    stmt := id
    combHitDelta := after.hit.toNat - before.hit.toNat
    combExcludedDelta := after.excluded.toNat - before.excluded.toNat
    lineHitDelta := if moves then (if excluded then 1 else -1) else 0
    shadowed
    scopes := (← get).scopesListing id }
  outcome.scopes.forM fun scope => .update fun db =>
    (shiftScope outcome db scope).map fun db => (⟨⟩, db)
  return outcome

/-- Sets the exclusion of an expression that a scope has to contain. With `alsoLine`, the line of
the statement moves along with its root. -/
def set (cfg : ScoringConfig) (scope : ScopeId) (expr : ExprId) (excluded alsoLine : Bool) :
    Attempt Refusal Database ExclusionOutcome := do
  let stmt ← .ask fun db => db.locate scope expr
  (toggle cfg stmt expr excluded alsoLine).mapError .fault

/-- Sets the exclusion of the node that carries a number below an expression. Lines never move. -/
def setByUnderline (cfg : ScoringConfig) (scope : ScopeId) (expr : ExprId) (underline : UInt32)
    (excluded : Bool) : Attempt Refusal Database ExclusionOutcome := do
  let _ ← Attempt.ask fun db => db.locate scope expr
  let target ← .ask fun db => db.findByUnderline expr underline
  set cfg scope target excluded false

end Exclusion

namespace Database

variable (db : Database)

/-- What a toggle that meets no fault answers and leaves; likewise below. -/
def toggle (cfg : ScoringConfig) (id : StmtId) (expr : ExprId) (excluded alsoLine : Bool) :
    Checked (ExclusionOutcome × Database) :=
  (Exclusion.toggle cfg id expr excluded alsoLine).outcome db

def setExclusion (cfg : ScoringConfig) (scope : ScopeId) (expr : ExprId)
    (excluded alsoLine : Bool) : Request (ExclusionOutcome × Database) :=
  (Exclusion.set cfg scope expr excluded alsoLine).outcome db

def setExclusionByUnderline (cfg : ScoringConfig) (scope : ScopeId) (expr : ExprId)
    (underline : UInt32) (excluded : Bool) : Request (ExclusionOutcome × Database) :=
  (Exclusion.setByUnderline cfg scope expr underline excluded).outcome db

/-- A toggle, with the database passed on from step to step. -/
theorem toggle_steps (cfg : ScoringConfig) (id : StmtId) (expr : ExprId) (excluded alsoLine : Bool) :
    db.toggle cfg id expr excluded alsoLine = (do
      let stmt ← db.stmt id
      let shadowed ← db.excludedAbove expr
      let (before, marks, db) ← db.computeTree stmt.root cfg (.new db.exprs.size)
      let db := db.modifyExpr expr fun e => { e with excluded }
      let (after, _, db) ← db.computeTree stmt.root cfg marks.beginPass
      Exclusion.checkTotals before after
      let moves := movesLine stmt (← db.expr stmt.root) expr excluded alsoLine
      let db := if moves then db.modifyStmt id fun s => { s with lineExcluded := excluded } else db
      let outcome : ExclusionOutcome := {
        stmt := id
        combHitDelta := after.hit.toNat - before.hit.toNat
        combExcludedDelta := after.excluded.toNat - before.excluded.toNat
        lineHitDelta := if moves then (if excluded then 1 else -1) else 0
        shadowed
        scopes := db.scopesListing id }
      let db ← outcome.scopes.foldlM (Exclusion.shiftScope outcome) db
      return (outcome, db)) := by
  simp only [toggle, Exclusion.toggle, Exclusion.scoreTree, Attempt.outcome_ask_bind,
    Attempt.outcome_get_bind, Attempt.outcome_update_bind, Attempt.outcome_modify_bind,
    Attempt.outcome_forM_bind, Attempt.outcome_pure, bind_assoc, pure_bind]
  rfl

/-- The look-up comes first, then the toggle. -/
theorem setExclusion_steps (cfg : ScoringConfig) (scope : ScopeId) (expr : ExprId)
    (excluded alsoLine : Bool) :
    db.setExclusion cfg scope expr excluded alsoLine =
      db.locate scope expr >>= fun stmt =>
        Checked.request (db.toggle cfg stmt expr excluded alsoLine) := by
  rw [setExclusion, Exclusion.set, Attempt.outcome_ask_bind]
  simp only [Attempt.outcome_mapError]
  rfl

/-- The named node is looked up, then that with the number below it, and then the latter is
excluded. -/
theorem setExclusionByUnderline_steps (cfg : ScoringConfig) (scope : ScopeId) (expr : ExprId)
    (underline : UInt32) (excluded : Bool) :
    db.setExclusionByUnderline cfg scope expr underline excluded = (do
      let _ ← db.locate scope expr
      let target ← db.findByUnderline expr underline
      db.setExclusion cfg scope target excluded false) := by
  simp only [setExclusionByUnderline, Exclusion.setByUnderline, Attempt.outcome_ask_bind]
  rfl

end Database

/-! ## Refusals -/

namespace Exclusion

variable {db left : Database} {cfg : ScoringConfig} {scope : ScopeId} {expr : ExprId}
  {excluded alsoLine : Bool} {error : LookupError}

/-- All look-ups come before the first write, so that nothing was written if one fails. -/
theorem left_of_set (h : (set cfg scope expr excluded alsoLine).on db = (.error (.lookup error), left)) :
    left = db := by
  refine Attempt.left_of_ask_bind (fun stmt h => ?_) h
  -- a toggle fails by faults only
  obtain ⟨fault, hfault, -⟩ := Attempt.of_mapError_error h
  cases hfault

theorem left_of_setByUnderline {underline : UInt32}
    (h : (setByUnderline cfg scope expr underline excluded).on db = (.error (.lookup error), left)) :
    left = db :=
  Attempt.left_of_ask_bind (fun _ h => Attempt.left_of_ask_bind (fun _ h => left_of_set h) h) h

/-- What is refused is refused with the database as it was. -/
theorem on_set_of_refused (h : db.setExclusion cfg scope expr excluded alsoLine =
    .error (.lookup error)) :
    (set cfg scope expr excluded alsoLine).on db = (.error (.lookup error), db) := by
  obtain ⟨left, h⟩ := Attempt.exists_on_of_outcome h
  rw [h, left_of_set h]

theorem on_setByUnderline_of_refused {underline : UInt32}
    (h : db.setExclusionByUnderline cfg scope expr underline excluded = .error (.lookup error)) :
    (setByUnderline cfg scope expr underline excluded).on db = (.error (.lookup error), db) := by
  obtain ⟨left, h⟩ := Attempt.exists_on_of_outcome h
  rw [h, left_of_setByUnderline h]

end Exclusion

end LogicCoverage
