import LogicCoverage.Proofs.Addresses

/-!
# The ledger of a run

The engine remembers the configuration of its last pass only, but recalculations and exclusions are
carried out under the configuration of the day. A ledger records all configurations under which a
session has acted, since a pass last cleared the underline ids. It takes no part in what a session
does: it is there to say what the numbers and the cached statistics depend on.
-/

namespace LogicCoverage

open Relation

structure Ledger where
  engine : Engine
  /-- The configurations of the actions since a pass last cleared the underline ids. -/
  configs : List ScoringConfig

namespace Ledger

/-- Records an instruction. A pass of an outdated engine clears all underline ids first. -/
def enter (l : Ledger) : Instruction → Ledger
  | .setConfig config => { l with engine := l.engine.setConfig config }
  | .act .scoreAll => {
      engine := { l.engine with scoredWith := some l.engine.config }
      configs := l.engine.config :: if l.engine.isOutdated then [] else l.configs }
  | .act _ => { l with configs := l.engine.config :: l.configs }

def enterAll (l : Ledger) (instructions : List Instruction) : Ledger := instructions.foldl enter l

/-- The last instruction is entered last. -/
theorem enterAll_concat (l : Ledger) (instructions : List Instruction) (i : Instruction) :
    l.enterAll (instructions ++ [i]) = (l.enterAll instructions).enter i := by
  rw [enterAll, List.foldl_concat]
  rfl

/-- Every action but a pass adds to the configurations that were acted under. -/
theorem enter_act {action : Action} (h : action ≠ .scoreAll) (l : Ledger) :
    l.enter (.act action) = { l with configs := l.engine.config :: l.configs } := by
  cases action with
  | scoreAll => exact absurd rfl h
  | _ => rfl

end Ledger

namespace Engine

open Database

variable {db : Database} {engine : Engine}

theorem fault_of_pass (hf : db.Forest) {refusal : Refusal}
    (h : (do
      let (stats, db) ← db.scopeIds.foldlM (scoreScope engine.config) ([], db)
      return (stats, { engine with scoredWith := some engine.config }, db)) =
        (.error refusal : Request (List (ScopeId × Statistic) × Engine × Database))) :
    ∃ fault, refusal = .fault fault := by
  rcases bind_eq_error_iff.mp h with herr | ⟨result, -, hok⟩
  · exact (foldlM_scoreScope_error hf (fun u hu => exists_scope?_of_mem hu) herr).1
  · cases hok

/-- A pass is never refused. -/
theorem fault_of_scoreAll (hf : db.Forest) {refusal : Refusal}
    (h : engine.scoreAll db = .error refusal) : ∃ fault, refusal = .fault fault := by
  cases houtdated : engine.isOutdated with
  | false =>
    rw [scoreAll_of_not_isOutdated houtdated] at h
    exact fault_of_pass hf h
  | true =>
    rw [scoreAll, houtdated, if_pos rfl] at h
    rcases bind_eq_error_iff.mp h with hreset | ⟨db₁, hreset, h⟩
    · exact Checked.fault_of_request hreset
    · have hcleared := cleared_of_foldlM (Checked.request_eq_ok_iff.mp hreset)
      exact fault_of_pass (hf.congr (bare_eq_of_unscored hcleared.unscored)) h

end Engine

namespace Session

open Database

/-- What an instruction does to a session. -/
inductive Followed (s : Session) : Instruction → Session → Prop where
  | configured (config : ScoringConfig) :
    Followed s (.setConfig config) ⟨s.engine.setConfig config, s.db⟩
  | passed {stats : List (ScopeId × Statistic)} {db : Database} :
    s.engine.scoreAll s.db =
      .ok (stats, { s.engine with scoredWith := some s.engine.config }, db) →
    Followed s (.act .scoreAll) ⟨{ s.engine with scoredWith := some s.engine.config }, db⟩
  | refused {action : Action} : action ≠ .scoreAll → Followed s (.act action) s
  | recalculated {u : ScopeId} {db : Database} : Recalculation s.engine.config s.db db →
    Followed s (.act (.recalcScope u)) ⟨s.engine, db⟩
  | toggled {action : Action} {u : ScopeId} {x : ExprId} (t : s.db.Target u x)
    {excluded alsoLine : Bool} {o : ExclusionOutcome} {db : Database} : action ≠ .scoreAll →
    t.Toggled s.engine.config excluded alsoLine o db → Followed s (.act action) ⟨s.engine, db⟩

variable {s s' : Session} {i : Instruction}

/-- All that an instruction can do to a consistent session. -/
theorem followed_of_follow (hf : s.db.Forest) (h : s.follow i = .ok s') : s.Followed i s' := by
  cases i with
  | setConfig config =>
    cases h
    exact .configured config
  | act action =>
    change s.step action = .ok s' at h
    rw [step_eq] at h
    cases hperform : s.perform action with
    | error refusal =>
      rw [hperform] at h
      cases refusal with
      | fault fault => cases h
      | lookup error =>
        cases h
        -- A pass names nothing that might be absent.
        refine .refused ?_
        rintro rfl
        rcases bind_eq_error_iff.mp hperform with hscore | ⟨result, -, hok⟩
        · obtain ⟨fault, hfault⟩ := Engine.fault_of_scoreAll hf hscore
          cases hfault
        · cases hok
    | ok next =>
      rw [hperform] at h
      cases h
      by_cases hpass : action = .scoreAll
      · subst hpass
        obtain ⟨⟨stats, engine, db⟩, hscore, h⟩ := bind_eq_ok_iff.mp hperform
        cases h
        obtain ⟨rfl, -⟩ := Engine.scoreAll_ok hf hscore
        exact .passed hscore
      · obtain ⟨hengine, hcases⟩ := perform_cases hf hpass hperform
        obtain ⟨engine, db⟩ := s'
        cases hengine
        rcases hcases with ⟨u, rfl, hrecalc⟩ | ⟨u, x, t, excluded, alsoLine, o, ht⟩
        · exact .recalculated hrecalc
        · exact .toggled t hpass ht

namespace Followed

variable (h : s.Followed i s')

include h

/-- No instruction touches what is bare. -/
theorem bare (hf : s.db.Forest) : s'.db.bare = s.db.bare := by
  cases h with
  | configured | refused => rfl
  | passed hscore => exact Engine.bare_of_scoreAll hf hscore
  | recalculated hrecalc => exact bare_eq_of_unscored hrecalc.unscored
  | toggled t _ ht => exact ht.bare

/-- The ledger keeps up with the engine. -/
theorem engine_eq {l : Ledger} (hl : s.engine = l.engine) : s'.engine = (l.enter i).engine := by
  cases h with
  | configured config => rw [Ledger.enter, hl]
  | passed => rw [Ledger.enter, hl]
  | refused hne | toggled _ hne => rw [Ledger.enter_act hne, hl]
  | recalculated => exact hl

end Followed

/-- A property of sessions and ledgers that every instruction keeps holds after a run. -/
theorem followAll_induction {P : Session → Ledger → Prop} {l : Ledger}
    {instructions : List Instruction} (hf : s.db.Forest) (hl : s.engine = l.engine)
    (step : ∀ {s s' : Session} {l : Ledger}, ∀ i ∈ instructions, s.db.Forest →
      s.engine = l.engine → s.Followed i s' → P s l → P s' (l.enter i))
    (hs : P s l) (hrun : s.followAll instructions = .ok s') :
    s'.db.Forest ∧ s'.engine = (l.enterAll instructions).engine ∧
      P s' (l.enterAll instructions) := by
  induction instructions generalizing s l with
  | nil =>
    cases hrun
    exact ⟨hf, hl, hs⟩
  | cons i instructions ih =>
    obtain ⟨s₁, hfollow, hrun⟩ := bind_eq_ok_iff.mp hrun
    have h := followed_of_follow hf hfollow
    exact ih (hf.congr (h.bare hf)) (h.engine_eq hl)
      (fun i hi => step i (List.mem_cons_of_mem _ hi)) (step i List.mem_cons_self hf hl h hs) hrun

end Session

/-! ## An example -/

/-- Only the roots of statements are scored. -/
def ScoringConfig.rootsOnly : ScoringConfig := { ScoringConfig.default with depthBudget := some 0 }

namespace Database

/-- An edge of an edge: two nodes that are scored, one below the other. -/
def nestedEdges : Database where
  exprs := #[
    { Expression.new .posEdge 1 1 with parent := .expr ⟨1⟩ },
    { Expression.new .anyEdge 1 1 with left := some ⟨0⟩, parent := .stmt ⟨0⟩ }]
  stmts := #[⟨⟨1⟩, false⟩]
  scopes := #[⟨"top", .moduleScope, [⟨0⟩], [], .zero⟩]

theorem number?_nestedEdges (x : ExprId) : nestedEdges.number? x = none :=
  number?_eq_none (by decide) x

end Database

end LogicCoverage
