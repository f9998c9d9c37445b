import LogicCoverage.Engine

/-!
# Sessions

A session is a database in the hands of an engine. An action that names something absent is refused
and changes nothing; one that meets a fault ends the session. Between actions the configuration of
the engine may be replaced.
-/

namespace LogicCoverage

structure Session where
  engine : Engine
  db : Database

/-- What a session can be asked to do. -/
inductive Action where
  | scoreAll
  | recalcScope (scope : ScopeId)
  | setExclusion (scope : ScopeId) (expr : ExprId) (excluded alsoLine : Bool)
  | setExclusionByUnderline (scope : ScopeId) (expr : ExprId) (underline : UInt32) (excluded : Bool)
deriving DecidableEq

namespace Session

/-- Carries out an action under the configuration of the engine. -/
def perform (s : Session) : Action → Request Session
  | .scoreAll => do
    let (_, engine, db) ← s.engine.scoreAll s.db
    return ⟨engine, db⟩
  | .recalcScope scope => do
    let (_, db) ← s.db.recalcScope scope s.engine.config
    return { s with db }
  | .setExclusion scope expr excluded alsoLine => do
    let (_, db) ← s.db.setExclusion s.engine.config scope expr excluded alsoLine
    return { s with db }
  | .setExclusionByUnderline scope expr underline excluded => do
    let (_, db) ← s.db.setExclusionByUnderline s.engine.config scope expr underline excluded
    return { s with db }

/-- An attempt on the database, under the configuration of the engine. -/
def onDatabase {α : Type} (attempt : ScoringConfig → Attempt Refusal Database α) :
    Attempt Refusal Session α := ExceptT.mk do
  let s ← get
  let (answer, db) := (attempt s.engine.config).on s.db
  set { s with db }
  return answer

/-- Carries out an action as far as it goes. -/
def act : Action → Attempt Refusal Session Unit
  | .scoreAll => .update fun s => do
    let (_, engine, db) ← s.engine.scoreAll s.db
    return ((), ⟨engine, db⟩)
  | .recalcScope scope => do
    let _ ← onDatabase fun cfg => ScopeScore.recalculate cfg scope
  | .setExclusion scope expr excluded alsoLine => do
    let _ ← onDatabase fun cfg => Exclusion.set cfg scope expr excluded alsoLine
  | .setExclusionByUnderline scope expr underline excluded => do
    let _ ← onDatabase fun cfg => Exclusion.setByUnderline cfg scope expr underline excluded

/-- The session that an action leaves, whether or not it was refused. -/
def step (s : Session) (action : Action) : Checked Session :=
  match (act action).on s with
  | (.error (.fault fault), _) => .error fault
  | (_, left) => .ok left

section Refused

variable {α : Type} {s left : Session} {attempt : ScoringConfig → Attempt Refusal Database α}

/-- The database is left as the attempt leaves it, and the engine as it was. -/
theorem on_onDatabase : (onDatabase attempt).on s =
    (((attempt s.engine.config).on s.db).1, { s with db := ((attempt s.engine.config).on s.db).2 }) :=
  rfl

/-- An attempt on the database that does not fail hands over the engine as it was. -/
theorem outcome_onDatabase : (onDatabase attempt).outcome s =
    ((attempt s.engine.config).outcome s.db).map fun r => (r.1, { s with db := r.2 }) := by
  rw [Attempt.outcome, Attempt.outcome, on_onDatabase]
  rcases (attempt s.engine.config).on s.db with ⟨_ | a, db⟩ <;> rfl

/-- What leaves the database leaves the session. -/
theorem left_of_onDatabase {refusal : Refusal}
    (hdb : ∀ db, (attempt s.engine.config).on s.db = (.error refusal, db) → db = s.db)
    (h : (onDatabase attempt >>= fun _ => pure ()).on s = (.error refusal, left)) : left = s := by
  rw [Attempt.on_bind, on_onDatabase] at h
  rcases hon : (attempt s.engine.config).on s.db with ⟨refusal' | a, db⟩
  · rw [hon] at h
    obtain ⟨hrefusal, rfl⟩ := Prod.mk.inj h
    cases hrefusal
    rw [hdb db hon]
  · rw [hon] at h
    cases (Prod.mk.inj h).1

/-- An action that names something absent changes nothing. -/
theorem left_of_refused {action : Action} {error : LookupError}
    (h : (act action).on s = (.error (.lookup error), left)) : left = s := by
  cases action with
  | scoreAll => exact Attempt.left_of_update h
  | recalcScope scope => exact left_of_onDatabase (fun db => ScopeScore.left_of_recalculate) h
  | setExclusion scope expr excluded alsoLine =>
    exact left_of_onDatabase (fun db => Exclusion.left_of_set) h
  | setExclusionByUnderline scope expr underline excluded =>
    exact left_of_onDatabase (fun db => Exclusion.left_of_setByUnderline) h

/-- An action that is carried out is performed. -/
theorem outcome_act (action : Action) :
    (act action).outcome s = (s.perform action).map fun next => ((), next) := by
  cases action with
  | scoreAll =>
    rw [act, Attempt.outcome_update, perform]
    cases s.engine.scoreAll s.db <;> rfl
  | recalcScope scope =>
    rw [act, Attempt.outcome_bind, outcome_onDatabase, perform, Database.recalcScope]
    cases (ScopeScore.recalculate s.engine.config scope).outcome s.db <;> rfl
  | setExclusion scope expr excluded alsoLine =>
    rw [act, Attempt.outcome_bind, outcome_onDatabase, perform, Database.setExclusion]
    cases (Exclusion.set s.engine.config scope expr excluded alsoLine).outcome s.db <;> rfl
  | setExclusionByUnderline scope expr underline excluded =>
    rw [act, Attempt.outcome_bind, outcome_onDatabase, perform, Database.setExclusionByUnderline]
    cases (Exclusion.setByUnderline s.engine.config scope expr underline excluded).outcome s.db <;>
      rfl

/-- A step performs its action, or leaves the session as it was if the action was refused. -/
theorem step_eq (s : Session) (action : Action) : s.step action =
    match s.perform action with
    | .ok next => .ok next
    | .error (.lookup _) => .ok s
    | .error (.fault fault) => .error fault := by
  have houtcome : (act action).outcome s = _ := outcome_act action
  rw [Attempt.outcome] at houtcome
  rw [step]
  rcases hact : (act action).on s with ⟨(error | fault) | _, left⟩ <;> rw [hact] at houtcome <;>
    cases hperform : s.perform action <;> rw [hperform] at houtcome <;> cases houtcome
  · rw [left_of_refused hact]
  · rfl
  · rfl

end Refused

/-- One action after the other. -/
def run (s : Session) (actions : List Action) : Checked Session := actions.foldlM step s

end Session

/-- What a session can be told: to go on under another configuration, or to act. -/
inductive Instruction where
  | setConfig (config : ScoringConfig)
  | act (action : Action)
deriving DecidableEq

namespace Session

/-- The session after an instruction. A new configuration changes nothing in the database. -/
def follow (s : Session) : Instruction → Checked Session
  | .setConfig config => .ok { s with engine := s.engine.setConfig config }
  | .act action => s.step action

/-- One instruction after the other. -/
def followAll (s : Session) (instructions : List Instruction) : Checked Session :=
  instructions.foldlM follow s

end Session

end LogicCoverage
