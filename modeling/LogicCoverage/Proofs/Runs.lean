import LogicCoverage.Proofs.Passes
import LogicCoverage.Session

/-!
# Runs

Every action of a session either recalculates scopes or toggles one node, or it changes nothing.
What these keep holds along a whole run.
-/

namespace LogicCoverage

open Relation

/-! ## One action -/

namespace Database

variable {db db' : Database} {cfg : ScoringConfig} {u : ScopeId} {x : ExprId}

/-- What an action does: it recalculates any number of scopes, or it toggles a node. -/
inductive Changed (cfg : ScoringConfig) (db db' : Database) : Prop where
  | recalculated : ReflTransGen (Recalculation cfg) db db' → Changed cfg db db'
  | toggled {v : ScopeId} {y : ExprId} (t : db.Target v y) {excluded alsoLine : Bool}
    {o : ExclusionOutcome} :
    t.Toggled cfg excluded alsoLine o db' → Changed cfg db db'

namespace Changed

variable (h : Changed cfg db db')

include h

/-- No action touches what is bare. -/
theorem bare : db'.bare = db.bare := by
  cases h with
  | recalculated h => exact bare_eq_of_unscored (unscored_of_recalculations h)
  | toggled t h => exact h.bare

variable (hf : db.Forest)

include hf

/-- A scope that is current stays so. -/
theorem current (hu : db.Current cfg u) : db'.Current cfg u := by
  cases h with
  | recalculated h =>
    exact recalculations_induction h hf (fun hf hstep => hstep.current hf) hu
  | toggled t h => exact h.current hf hu

/-- Numbers that could have been given stay so. -/
theorem numbered (hn : db.Numbered cfg) : db'.Numbered cfg := by
  cases h with
  | recalculated h =>
    exact recalculations_induction h hf (fun hf hstep => hstep.numbered hf) hn
  | toggled t h => exact h.numbered hf hn

/-- Muted nodes stay without numbers. -/
theorem audible (hn : db.Numbered cfg) (ha : db.Audible) : db'.Audible := by
  cases h with
  | recalculated h =>
    exact recalculations_induction h hf (fun hf hstep => hstep.audible hf) ha
  | toggled t h => exact h.audible hf hn ha

/-- Nodes that are not muted afterwards keep their numbers. -/
theorem number?_of_some (ha : db.Audible) {k : UInt32} (hk : db.number? x = some k)
    (hm : db'.muted x = false) : db'.number? x = some k := by
  cases h with
  | recalculated h =>
    rw [hf.muted_eq_of_unscored (unscored_of_recalculations h)] at hm
    refine (recalculations_induction (P := fun d => d.number? x = some k ∧ d.muted x = false) h hf
      (fun hf hstep hkept => ?_) ⟨hk, hm⟩).1
    refine ⟨hstep.number?_of_some hf hkept.1 hkept.2, ?_⟩
    exact (congrFun (hf.muted_eq_of_unscored hstep.unscored) x).trans hkept.2
  | toggled t h => exact h.number?_of_some hf ha hk hm

end Changed

end Database

namespace Session

open Database

variable {s s' : Session} {action : Action} {fault : Fault}

/-- An action other than a pass leaves the engine, and recalculates its scope or toggles a node. -/
theorem perform_cases (hf : s.db.Forest) (hne : action ≠ .scoreAll)
    (h : s.perform action = .ok s') : s'.engine = s.engine ∧
      ((∃ u, action = .recalcScope u ∧ Recalculation s.engine.config s.db s'.db) ∨
        ∃ u x, ∃ t : s.db.Target u x, ∃ excluded alsoLine o,
          t.Toggled s.engine.config excluded alsoLine o s'.db) := by
  cases action with
  | scoreAll => exact absurd rfl hne
  | recalcScope u =>
    obtain ⟨⟨stat, db⟩, hrecalc, h⟩ := bind_eq_ok_iff.mp h
    cases h
    rcases found_cases (s.db.scope? u) (.scopeNotFound u) with ⟨scope, hu, -⟩ | herr
    · exact ⟨rfl, .inl ⟨u, rfl, u, scope, stat, hu, hf.recalculated hu hrecalc⟩⟩
    · rw [recalcScope_steps, herr] at hrecalc
      cases hrecalc
  | setExclusion u x excluded alsoLine =>
    obtain ⟨⟨o, db⟩, hset, h⟩ := bind_eq_ok_iff.mp h
    cases h
    obtain ⟨t, ht⟩ := hf.toggled_of_setExclusion hset
    exact ⟨rfl, .inr ⟨u, x, t, excluded, alsoLine, o, ht⟩⟩
  | setExclusionByUnderline u x underline excluded =>
    obtain ⟨⟨o, db⟩, hset, h⟩ := bind_eq_ok_iff.mp h
    cases h
    obtain ⟨y, -, hset⟩ := hf.found_of_setExclusionByUnderline hset
    obtain ⟨t, ht⟩ := hf.toggled_of_setExclusion hset
    exact ⟨rfl, .inr ⟨u, y, t, excluded, false, o, ht⟩⟩

/-- What an action that succeeds keeps; a pass makes all scopes current. -/
theorem perform_ok (hf : s.db.Forest) (hfresh : s.engine.isOutdated = false)
    (h : s.perform action = .ok s') :
    s'.engine.config = s.engine.config ∧ s'.engine.isOutdated = false ∧
      Changed s.engine.config s.db s'.db ∧
        (action = .scoreAll → ∀ u, s'.db.Current s.engine.config u) := by
  by_cases hpass : action = .scoreAll
  · subst hpass
    obtain ⟨⟨stats, engine, db⟩, hscore, h⟩ := bind_eq_ok_iff.mp h
    cases h
    obtain ⟨rfl, hcurrent, db₁, -, hkept, hruns⟩ := Engine.scoreAll_ok hf hscore
    cases hkept hfresh
    exact ⟨rfl, by simp [Engine.isOutdated], .recalculated hruns, fun _ => hcurrent⟩
  · obtain ⟨hengine, hcases⟩ := perform_cases hf hpass h
    refine ⟨by rw [hengine], by rw [hengine, hfresh], ?_, fun h => absurd h hpass⟩
    rcases hcases with ⟨u, -, hrecalc⟩ | ⟨u, x, t, excluded, alsoLine, o, ht⟩
    · exact .recalculated (.single hrecalc)
    · exact .toggled t ht

/-- A pass is not refused. -/
theorem perform_scoreAll_error (hf : s.db.Forest) (hfresh : s.engine.isOutdated = false)
    {refusal : Refusal} (h : s.perform .scoreAll = .error refusal) :
    (∃ fault, refusal = .fault fault) ∧ ¬ ∀ u, s.db.Current s.engine.config u := by
  rcases bind_eq_error_iff.mp h with hscore | ⟨result, -, h⟩
  · rw [Engine.scoreAll_of_not_isOutdated hfresh] at hscore
    rcases bind_eq_error_iff.mp hscore with hpass | ⟨result, -, h⟩
    · exact Engine.foldlM_scoreScope_error hf (fun u hu => exists_scope?_of_mem hu) hpass
    · cases h
  · cases h

/-- What is known after a step, whether or not the action was refused. -/
theorem step_ok (hf : s.db.Forest) (hfresh : s.engine.isOutdated = false)
    (h : s.step action = .ok s') :
    s'.engine.config = s.engine.config ∧ s'.engine.isOutdated = false ∧
      Changed s.engine.config s.db s'.db ∧
        (action = .scoreAll → ∀ u, s'.db.Current s.engine.config u) := by
  rw [step_eq] at h
  cases hperform : s.perform action with
  | ok next =>
    rw [hperform] at h
    cases h
    exact perform_ok hf hfresh hperform
  | error refusal =>
    rw [hperform] at h
    cases refusal with
    | fault fault => cases h
    | lookup error =>
      cases h
      refine ⟨rfl, hfresh, .recalculated .refl, ?_⟩
      rintro rfl
      obtain ⟨fault, hfault⟩ := (perform_scoreAll_error hf hfresh hperform).1
      cases hfault

/-- A step fails by the fault of its action only. -/
theorem fault_of_step (h : s.step action = .error fault) :
    s.perform action = .error (.fault fault) := by
  rw [step_eq] at h
  cases hperform : s.perform action with
  | ok next =>
    rw [hperform] at h
    cases h
  | error refusal =>
    rw [hperform] at h
    cases refusal with
    | lookup error => cases h
    | fault fault' =>
      cases h
      rfl

/-! ## Runs after a pass -/

/-- The last pass ran under the configuration of the engine, and all scopes are current. -/
structure Ready (s : Session) : Prop where
  forest : s.db.Forest
  fresh : s.engine.isOutdated = false
  current (u : ScopeId) : s.db.Current s.engine.config u

namespace Ready

variable (h : s.Ready)

include h

theorem step_ok (hstep : s.step action = .ok s') :
    s'.Ready ∧ s'.engine.config = s.engine.config := by
  obtain ⟨hconfig, hfresh, hchanged, -⟩ := Session.step_ok h.forest h.fresh hstep
  refine ⟨⟨h.forest.congr hchanged.bare, hfresh, fun u => ?_⟩, hconfig⟩
  rw [hconfig]
  exact hchanged.current h.forest (h.current u)

/-- Where all scopes are current, an exclusion can only run out of underline ids. -/
theorem setExclusion_error {u : ScopeId} {x : ExprId} {excluded alsoLine : Bool}
    (herr : s.db.setExclusion s.engine.config u x excluded alsoLine = .error (.fault fault)) :
    fault = .underlinesExhausted := by
  rcases h.forest.setExclusion_cases s.engine.config excluded alsoLine u x with
    ⟨error, hlookup⟩ | ⟨t, ⟨o, db, hok, -⟩ | ⟨fault', hfault, huntoggled⟩⟩
  · cases herr.symm.trans hlookup
  · cases herr.symm.trans hok
  · cases herr.symm.trans hfault
    exact (huntoggled.exhausted h.forest t.st_eq t.root_eq t.node_eq t.mem rfl t.scope_eq t.listed
      fun v => (h.current v).exact).1

/-- In a session that is ready, a step fails only if the numbers run out. -/
theorem step_error (hstep : s.step action = .error fault) : fault = .underlinesExhausted := by
  have hperform := fault_of_step hstep
  cases action with
  | scoreAll => exact absurd h.current (perform_scoreAll_error h.forest h.fresh hperform).2
  | recalcScope u =>
    rcases bind_eq_error_iff.mp hperform with hrecalc | ⟨result, -, hok⟩
    · rcases found_cases (s.db.scope? u) (.scopeNotFound u) with ⟨scope, hu, -⟩ | herr
      · obtain ⟨db, hok⟩ := (h.current u).recalcScope_eq h.forest hu
        cases hok.symm.trans hrecalc
      · rw [recalcScope_steps, herr] at hrecalc
        cases hrecalc
    · cases hok
  | setExclusion u x excluded alsoLine =>
    rcases bind_eq_error_iff.mp hperform with hset | ⟨result, -, hok⟩
    · exact h.setExclusion_error hset
    · cases hok
  | setExclusionByUnderline u x underline excluded =>
    rcases bind_eq_error_iff.mp hperform with hset | ⟨result, -, hok⟩
    · rcases h.forest.setExclusionByUnderline_cases s.engine.config excluded u x underline with
        ⟨error, herr⟩ | ⟨y, heq⟩
      · cases herr.symm.trans hset
      · exact h.setExclusion_error (heq.symm.trans hset)
    · cases hok

omit h in
/-- A run keeps a session ready. -/
theorem run_ok {actions : List Action} (h : s.Ready) (hrun : s.run actions = .ok s') :
    s'.Ready ∧ s'.engine.config = s.engine.config := by
  induction actions generalizing s with
  | nil =>
    cases hrun
    exact ⟨h, rfl⟩
  | cons action actions ih =>
    obtain ⟨s₁, hstep, hrun⟩ := bind_eq_ok_iff.mp hrun
    obtain ⟨h₁, hconfig⟩ := h.step_ok hstep
    obtain ⟨h', hconfig'⟩ := ih h₁ hrun
    exact ⟨h', hconfig'.trans hconfig⟩

omit h in
/-- In a session that is ready, a run fails only if the numbers run out. -/
theorem run_error {actions : List Action} (h : s.Ready) (hrun : s.run actions = .error fault) :
    fault = .underlinesExhausted := by
  induction actions generalizing s with
  | nil => cases hrun
  | cons action actions ih =>
    rcases bind_eq_error_iff.mp hrun with hstep | ⟨s₁, hstep, hrun⟩
    · exact h.step_error hstep
    · exact ih (h.step_ok hstep).1 hrun

end Ready

/-- On a consistent database, once a pass has succeeded, nothing that is asked for afterwards makes
a cached statistic stale: each is what a recalculation of its scope returns, with no more excluded
than hit and no more hit than there is. A run can only end early by running out of underline ids; no
counter leaves its range. -/
theorem run_statistics {db db' : Database} (hdb : db.check = .ok ()) (engine : Engine)
    {stats : List (ScopeId × Statistic)} {engine' : Engine}
    (hpass : engine.scoreAll db = .ok (stats, engine', db')) (actions : List Action) :
    (∀ s, Session.run ⟨engine', db'⟩ actions = .ok s →
      ∀ u scope, s.db.scope? u = some scope →
        (∃ db₂, s.db.recalcScope u engine.config = .ok (scope.stat, db₂)) ∧
        scope.stat.combExcluded ≤ scope.stat.combHit ∧
        scope.stat.combHit ≤ scope.stat.combTotal ∧
        scope.stat.lineExcluded ≤ scope.stat.lineHit ∧
        scope.stat.lineHit ≤ scope.stat.lineTotal) ∧
    ∀ fault, Session.run ⟨engine', db'⟩ actions = .error fault → fault = .underlinesExhausted := by
  have hf := forest_of_check hdb
  obtain ⟨rfl, hcurrent, db₁, hcleared, -, hruns⟩ := Engine.scoreAll_ok hf hpass
  have hb : db'.bare = db.bare :=
    bare_eq_of_unscored ((unscored_of_recalculations hruns).trans hcleared.unscored)
  have hready : Ready ⟨{ engine with scoredWith := some engine.config }, db'⟩ :=
    ⟨hf.congr hb, by simp [Engine.isOutdated], hcurrent⟩
  refine ⟨fun s hrun u scope hu => ?_, fun fault hrun => hready.run_error hrun⟩
  obtain ⟨hs, hconfig⟩ := hready.run_ok hrun
  have hcur : s.db.Current engine.config u := hconfig ▸ hs.current u
  have hordered := hcur.exact.ordered hu
  refine ⟨hcur.recalcScope_eq hs.forest hu, ?_, ?_, ?_, ?_⟩
  · exact UInt32.le_iff_toNat_le.mpr hordered.combExcluded_le
  · exact UInt32.le_iff_toNat_le.mpr hordered.combHit_le
  · exact UInt32.le_iff_toNat_le.mpr hordered.lineExcluded_le
  · exact UInt32.le_iff_toNat_le.mpr hordered.lineHit_le

theorem run_statistics_andGate :
    andGate.check = .ok () ∧ ∃ stats engine db,
      (Engine.new .default).scoreAll andGate = .ok (stats, engine, db) ∧
        ∃ s scope db₂, Session.run ⟨engine, db⟩
            [.setExclusion ⟨0⟩ ⟨2⟩ true true, .recalcScope ⟨7⟩] = .ok s ∧
          s.db.scope? ⟨0⟩ = some scope ∧ scope.stat = ⟨3, 3, 2, 1, 1, 1⟩ ∧
            s.db.recalcScope ⟨0⟩ .default = .ok (scope.stat, db₂) := by
  have hrun : ((Engine.new .default).scoreAll andGate >>= fun r =>
      Checked.request (Session.run ⟨r.2.1, r.2.2⟩
        [.setExclusion ⟨0⟩ ⟨2⟩ true true, .recalcScope ⟨7⟩])).map
          (fun s => (s.db.scope? ⟨0⟩).map Scope.stat) = .ok (some ⟨3, 3, 2, 1, 1, 1⟩) := by
    decide +kernel
  have hcheck : andGate.check = .ok () := by decide
  refine ⟨hcheck, ?_⟩
  rcases hpass : (Engine.new .default).scoreAll andGate with refusal | ⟨stats, engine, db⟩
  · rw [hpass] at hrun
    cases hrun
  rw [hpass, ok_bind] at hrun
  rcases hsteps : Session.run ⟨engine, db⟩
      [.setExclusion ⟨0⟩ ⟨2⟩ true true, .recalcScope ⟨7⟩] with fault | s
  · rw [hsteps] at hrun
    cases hrun
  rw [hsteps] at hrun
  obtain ⟨scope, hu, hstat⟩ := Option.map_eq_some_iff.mp (Except.ok.inj hrun)
  obtain ⟨⟨db₂, hrecalc⟩, -⟩ :=
    (run_statistics hcheck (Engine.new .default) hpass _).1 s hsteps ⟨0⟩ scope hu
  exact ⟨stats, engine, db, rfl, s, scope, db₂, hsteps, hu, hstat, hrecalc⟩

end Session

end LogicCoverage
