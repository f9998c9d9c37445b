import LogicCoverage.Engine
import LogicCoverage.Proofs.Requests

/-!
# Passes over all scopes

A scope is current when its statistic is exact and the trees of its statements are idle. Then it can
be recalculated, and nothing changes in what is cached. A recalculation makes its scope current and
leaves the others so; hence all scopes are current after a pass.
-/

namespace LogicCoverage

open Relation

namespace Database

variable {db db' : Database} {cfg : ScoringConfig} {u v : ScopeId} {scope : Scope}
  {stat : Statistic} {x : ExprId}

/-- The statistic of the scope is exact, and the trees that it lists are idle. -/
structure Current (db : Database) (cfg : ScoringConfig) (u : ScopeId) : Prop where
  exact : db.Exact cfg u
  settled {scope : Scope} : db.scope? u = some scope → ∀ id ∈ scope.statements, db.Settled cfg id

/-- A current scope can be recalculated, and the result is what is cached. -/
theorem Current.recalcScope_eq (h : db.Current cfg u) (hf : db.Forest)
    (hu : db.scope? u = some scope) : ∃ db', db.recalcScope u cfg = .ok (scope.stat, db') := by
  cases hrecalc : db.recalcScope u cfg with
  | error refusal => exact absurd (h.settled hu) (h.exact.recalcScope_error hf hu hrecalc).2
  | ok result =>
    obtain ⟨stat, db'⟩ := result
    rw [h.exact.stat_eq hf hu hrecalc]
    exact ⟨db', rfl⟩

/-- A recalculation of a scope that exists is not refused. -/
theorem fault_of_recalcScope {refusal : Refusal} (hu : db.scope? u = some scope)
    (h : db.recalcScope u cfg = .error refusal) : ∃ fault, refusal = .fault fault := by
  rw [recalcScope_eq hu] at h
  exact Checked.fault_of_request h

/-- A scope stays current when its statistic stays exact and trees stay idle. -/
theorem Current.congr (h : db.Current cfg v) (hb : db'.bare = db.bare) (hexact : db'.Exact cfg v)
    (hset : ∀ id, db.Settled cfg id → db'.Settled cfg id) : db'.Current cfg v where
  exact := hexact
  settled {scope'} hscope' id hid := by
    obtain ⟨scope, hscope, hun⟩ := exists_scope?_of_bare hb.symm hscope'
    rw [← Scope.statements_eq_of_unscored hun] at hid
    exact hset id (h.settled hscope id hid)

/-- A scope that is current stays so when a node is toggled. -/
theorem Target.Toggled.current {t : db.Target u x} {excluded alsoLine : Bool}
    {o : ExclusionOutcome} (h : t.Toggled cfg excluded alsoLine o db') (hf : db.Forest)
    (hv : db.Current cfg v) : db'.Current cfg v :=
  hv.congr h.bare (h.exact hf hv.exact) fun _ => h.settled hf

/-! ## One recalculation -/

/-- Some scope was recalculated. -/
def Recalculation (cfg : ScoringConfig) (db db' : Database) : Prop :=
  ∃ u scope stat, db.scope? u = some scope ∧ db.Recalculated cfg u scope stat db'

/-- Trees were scored one after the other, and then no node has changed. -/
theorem Recalculated.rescorings (h : db.Recalculated cfg u scope stat db') :
    ∃ db₁, ReflTransGen (Rescored cfg) db db₁ ∧ db₁.SameNodes db' ∧
      ∀ id ∈ scope.statements, db₁.Settled cfg id := by
  obtain ⟨⟨db₁, hruns, rfl, hsettled⟩, -, -⟩ := h
  exact ⟨db₁, hruns, ⟨rfl, bare_eq_of_unscored (unscored_setStat db₁ u stat)⟩, hsettled⟩

/-- A statement that is settled stays so when a scope is recalculated. -/
theorem Recalculated.settled (h : db.Recalculated cfg u scope stat db') (hf : db.Forest)
    {id : StmtId} (hset : db.Settled cfg id) : db'.Settled cfg id := by
  obtain ⟨db₁, hruns, hnodes, -⟩ := h.rescorings
  have hb := bare_eq_of_unscored (unscored_of_rescorings hruns).1
  exact hnodes.settled (hf.congr hb)
    (rescorings_induction hruns hf (fun hf hstep => hstep.settled hf) hset)

/-- The scope that is recalculated is current. -/
theorem Recalculated.current_self (h : db.Recalculated cfg u scope stat db') (hf : db.Forest)
    (hu : db.scope? u = some scope) : db'.Current cfg u where
  exact := h.exact_self hf hu
  settled {scope'} hu' id hid := by
    rw [h.scope?, if_pos rfl, hu] at hu'
    cases hu'
    obtain ⟨db₁, hruns, hnodes, hsettled⟩ := h.rescorings
    have hb := bare_eq_of_unscored (unscored_of_rescorings hruns).1
    exact hnodes.settled (hf.congr hb) (hsettled id hid)

namespace Recalculation

variable (h : Recalculation cfg db db')

include h

/-- A recalculation touches scores only. -/
theorem unscored : db'.unscored = db.unscored := by
  obtain ⟨u, scope, stat, -, h⟩ := h
  exact h.unscored

variable (hf : db.Forest)

include hf

/-- A scope that is current stays so. -/
theorem current (hv : db.Current cfg v) : db'.Current cfg v := by
  obtain ⟨u, scope, stat, hu, h⟩ := h
  exact hv.congr h.bare (h.exact hf hu hv.exact) fun _ => h.settled hf

/-- Numbers that could have been given stay so. -/
theorem numbered (hn : db.Numbered cfg) : db'.Numbered cfg := by
  obtain ⟨u, scope, stat, hu, h⟩ := h
  obtain ⟨db₁, hruns, hnodes, -⟩ := h.rescorings
  have hb := bare_eq_of_unscored (unscored_of_rescorings hruns).1
  exact hnodes.numbered (hf.congr hb)
    (rescorings_induction hruns hf (fun hf hstep => hstep.numbered hf) hn)

/-- Muted nodes stay without numbers. -/
theorem audible (ha : db.Audible) : db'.Audible := by
  obtain ⟨u, scope, stat, hu, h⟩ := h
  obtain ⟨db₁, hruns, hnodes, -⟩ := h.rescorings
  have hb := bare_eq_of_unscored (unscored_of_rescorings hruns).1
  exact hnodes.audible (hf.congr hb)
    (rescorings_induction hruns hf (fun hf hstep => hstep.audible hf) ha)

/-- Nodes that are not muted keep their numbers. -/
theorem number?_of_some {k : UInt32} (hk : db.number? x = some k) (hm : db.muted x = false) :
    db'.number? x = some k := by
  obtain ⟨u, scope, stat, hu, h⟩ := h
  obtain ⟨db₁, hruns, hnodes, -⟩ := h.rescorings
  rw [hnodes.number?]
  refine (rescorings_induction (P := fun d => d.number? x = some k ∧ d.muted x = false) hruns hf
    (fun hf hstep hkept => ?_) ⟨hk, hm⟩).1
  exact ⟨hstep.number?_of_some hkept.2 hkept.1, (congrFun (hstep.muted hf) x).trans hkept.2⟩

end Recalculation

/-! ## Recalculations one after the other -/

/-- One recalculation after the other touches scores only. -/
theorem unscored_of_recalculations (h : ReflTransGen (Recalculation cfg) db db') :
    db'.unscored = db.unscored := by
  induction h with
  | refl => rfl
  | tail _ hstep ih => exact hstep.unscored.trans ih

/-- What every recalculation keeps, a series of them keeps. -/
theorem recalculations_induction {P : Database → Prop}
    (h : ReflTransGen (Recalculation cfg) db db') (hf : db.Forest)
    (step : ∀ {d d' : Database}, d.Forest → Recalculation cfg d d' → P d → P d')
    (hdb : P db) : P db' := by
  induction h with
  | refl => exact hdb
  | tail hruns hstep ih =>
    exact step (hf.congr (bare_eq_of_unscored (unscored_of_recalculations hruns))) hstep ih

end Database

namespace Database

/-- Some numbers were cleared, and nothing else was changed. -/
structure Cleared (db db' : Database) : Prop where
  unscored : db'.unscored = db.unscored
  number? (x : ExprId) : db'.number? x = db.number? x ∨ db'.number? x = none

/-- To clear more is to clear. -/
theorem Cleared.trans {db db' db₂ : Database} (h : db.Cleared db') (h' : db'.Cleared db₂) :
    db.Cleared db₂ where
  unscored := h'.unscored.trans h.unscored
  number? x := by
    rcases h'.number? x with hx | hx
    · rw [hx]
      exact h.number? x
    · exact .inr hx

end Database

/-! ## A pass -/

namespace Engine

open Database

variable {db db' : Database} {cfg : ScoringConfig} {ids : List ScopeId}
  {stats stats' : List (ScopeId × Statistic)}

/-- A pass makes the scopes current that it scores. -/
theorem foldlM_scoreScope_ok (hf : db.Forest) (hex : ∀ u ∈ ids, ∃ scope, db.scope? u = some scope)
    (h : ids.foldlM (scoreScope cfg) (stats, db) = .ok (stats', db')) :
    ReflTransGen (Recalculation cfg) db db' ∧ ∀ u ∈ ids, db'.Current cfg u := by
  induction ids generalizing stats db with
  | nil =>
    cases h
    exact ⟨.refl, nofun⟩
  | cons u ids ih =>
    rw [List.forall_mem_cons] at hex
    obtain ⟨⟨scope, hu⟩, hex⟩ := hex
    rw [List.foldlM_cons] at h
    obtain ⟨_, hstep, h⟩ := bind_eq_ok_iff.mp h
    obtain ⟨⟨stat, db₁⟩, hrecalc, hstep⟩ := bind_eq_ok_iff.mp hstep
    cases hstep
    have hrec := hf.recalculated hu hrecalc
    have hf₁ := hf.congr hrec.bare
    obtain ⟨hruns, hcurrent⟩ :=
      ih hf₁ (fun v hv => exists_scope?_congr hrec.bare (hex v hv)) h
    refine ⟨hruns.head ⟨u, scope, stat, hu, hrec⟩, List.forall_mem_cons.mpr ⟨?_, hcurrent⟩⟩
    exact recalculations_induction hruns hf₁ (fun hf hstep => hstep.current hf)
      (hrec.current_self hf hu)

/-- A pass is never refused, and meets a fault only where some scope is not current. -/
theorem foldlM_scoreScope_error (hf : db.Forest)
    (hex : ∀ u ∈ ids, ∃ scope, db.scope? u = some scope) {refusal : Refusal}
    (h : ids.foldlM (scoreScope cfg) (stats, db) = .error refusal) :
    (∃ fault, refusal = .fault fault) ∧ ¬ ∀ u, db.Current cfg u := by
  induction ids generalizing stats db with
  | nil => cases h
  | cons u ids ih =>
    rw [List.forall_mem_cons] at hex
    obtain ⟨⟨scope, hu⟩, hex⟩ := hex
    rw [List.foldlM_cons, scoreScope] at h
    cases hrecalc : db.recalcScope u cfg with
    | error refusal' =>
      rw [hrecalc] at h
      cases h
      refine ⟨fault_of_recalcScope hu hrecalc, fun hcurrent => ?_⟩
      obtain ⟨db₁, hok⟩ := (hcurrent u).recalcScope_eq hf hu
      cases hok.symm.trans hrecalc
    | ok result =>
      obtain ⟨stat, db₁⟩ := result
      rw [hrecalc] at h
      have hrec := hf.recalculated hu hrecalc
      obtain ⟨hfault, hnot⟩ :=
        ih (hf.congr hrec.bare) (fun v hv => exists_scope?_congr hrec.bare (hex v hv)) h
      exact ⟨hfault, fun hcurrent => hnot fun v =>
        Recalculation.current ⟨u, scope, stat, hu, hrec⟩ hf (hcurrent v)⟩

/-- A pass under the configuration of the last one resets nothing. -/
theorem scoreAll_of_not_isOutdated {engine : Engine} (h : engine.isOutdated = false)
    (db : Database) : engine.scoreAll db = do
      let (stats, db) ← db.scopeIds.foldlM (scoreScope engine.config) ([], db)
      return (stats, { engine with scoredWith := some engine.config }, db) := by
  rw [scoreAll, h]
  rfl

theorem number?_setUnderline_none (db : Database) (n x : ExprId) :
    (db.setUnderline n none).number? x = if x = n then none else db.number? x := by
  rw [number?, setUnderline, expr?_modifyExpr]
  split
  · cases db.expr? x <;> rfl
  · rfl

/-- Clearing numbers one after the other clears them and changes nothing else. -/
theorem cleared_of_foldl (nodes : List ExprId) (db : Database) :
    db.Cleared (nodes.foldl (fun db id => db.setUnderline id none) db) := by
  induction nodes generalizing db with
  | nil => exact ⟨rfl, fun _ => .inl rfl⟩
  | cons n nodes ih =>
    refine .trans ⟨unscored_setUnderline n none, fun x => ?_⟩ (ih (db.setUnderline n none))
    rw [number?_setUnderline_none]
    split
    · exact .inr rfl
    · exact .inl rfl

/-- To clear statement by statement is to clear. -/
theorem cleared_of_foldlM {stmts : List StmtId}
    (h : stmts.foldlM (fun db stmt => db.resetUnderlines stmt) db = .ok db') : db.Cleared db' := by
  induction stmts generalizing db with
  | nil =>
    cases h
    exact ⟨rfl, fun _ => .inl rfl⟩
  | cons stmt stmts ih =>
    rw [List.foldlM_cons] at h
    obtain ⟨db₁, hreset, h⟩ := bind_eq_ok_iff.mp h
    obtain ⟨st, -, hreset⟩ := bind_eq_ok_iff.mp hreset
    obtain ⟨nodes, -, hreset⟩ := bind_eq_ok_iff.mp hreset
    cases hreset
    exact (cleared_of_foldl nodes db).trans (ih h)

/-- What is passed over is the database itself, or has been reset. -/
theorem exists_pass {engine : Engine} {result : List (ScopeId × Statistic) × Engine × Database}
    (h : engine.scoreAll db = .ok result) :
    ∃ db₁, db.Cleared db₁ ∧ (engine.isOutdated = false → db₁ = db) ∧
      (engine.isOutdated = true →
        db.stmtIds.foldlM (fun db stmt => db.resetUnderlines stmt) db = .ok db₁) ∧
      (do
        let (stats, db) ← db₁.scopeIds.foldlM (scoreScope engine.config) ([], db₁)
        return (stats, { engine with scoredWith := some engine.config }, db)) =
          Except.ok (ε := Refusal) result := by
  cases houtdated : engine.isOutdated with
  | false =>
    rw [scoreAll_of_not_isOutdated houtdated] at h
    exact ⟨db, ⟨rfl, fun _ => .inl rfl⟩, fun _ => rfl, nofun, h⟩
  | true =>
    rw [scoreAll, houtdated, if_pos rfl] at h
    obtain ⟨db₁, hreset, h⟩ := bind_eq_ok_iff.mp h
    have hreset := Checked.request_eq_ok_iff.mp hreset
    exact ⟨db₁, cleared_of_foldlM hreset, nofun, fun _ => hreset, h⟩

/-- After a pass all scopes are current. Underline ids are kept unless the configuration has
changed. -/
theorem scoreAll_ok {engine engine' : Engine} (hf : db.Forest)
    (h : engine.scoreAll db = .ok (stats, engine', db')) :
    engine' = { engine with scoredWith := some engine.config } ∧
      (∀ u, db'.Current engine.config u) ∧
        ∃ db₁, db.Cleared db₁ ∧ (engine.isOutdated = false → db₁ = db) ∧
          ReflTransGen (Recalculation engine.config) db₁ db' := by
  obtain ⟨db₁, hcleared, hkept, -, h⟩ := exists_pass h
  obtain ⟨⟨stats', db₂⟩, hpass, h⟩ := bind_eq_ok_iff.mp h
  cases h
  have hf₁ := hf.congr (bare_eq_of_unscored hcleared.unscored)
  obtain ⟨hruns, hcurrent⟩ :=
    foldlM_scoreScope_ok hf₁ (fun u hu => exists_scope?_of_mem hu) hpass
  refine ⟨rfl, fun u => ?_, db₁, hcleared, hkept, hruns⟩
  have hb := bare_eq_of_unscored (unscored_of_recalculations hruns)
  have hscored {scope : Scope} (hu : db'.scope? u = some scope) : db'.Current engine.config u := by
    obtain ⟨scope₁, hu₁, -⟩ := exists_scope?_of_bare hb.symm hu
    exact hcurrent u (mem_scopeIds hu₁)
  refine ⟨⟨?_, ?_⟩, ?_⟩
  · exact fun hu => (hscored hu).exact.tally hu
  · exact fun hu => (hscored hu).exact.scorable hu
  · exact fun hu => (hscored hu).settled hu

/-- A pass touches scores only. -/
theorem unscored_of_scoreAll {engine engine' : Engine} (hf : db.Forest)
    (h : engine.scoreAll db = .ok (stats, engine', db')) : db'.unscored = db.unscored := by
  obtain ⟨-, -, db₁, hcleared, -, hruns⟩ := scoreAll_ok hf h
  exact (unscored_of_recalculations hruns).trans hcleared.unscored

theorem bare_of_scoreAll {engine engine' : Engine} (hf : db.Forest)
    (h : engine.scoreAll db = .ok (stats, engine', db')) : db'.bare = db.bare :=
  bare_eq_of_unscored (unscored_of_scoreAll hf h)

end Engine

end LogicCoverage
