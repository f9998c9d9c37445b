import LogicCoverage.Proofs.Ledger

/-!
# Statistics of an earlier configuration

Cached statistics are those of the configuration of the last pass. An exclusion scores one tree under
the configuration of the engine, which may be another one, and moves the statistics by the
difference. The totals and the lines stay right under any configuration; the hits stay right as long
as exclusions are carried out under the configuration of the pass.
-/

namespace LogicCoverage

open Relation

namespace Database

variable {db db' : Database} {cfg cfg' : ScoringConfig} {u v : ScopeId} {x : ExprId}
  {scope : Scope}

/-- What is cached for a scope is right up to the hits: an exclusion does not change what there is to
cover, and lines are the same under every configuration. -/
def Steady (db : Database) (cfg : ScoringConfig) (u : ScopeId) : Prop :=
  ∀ scope, db.scope? u = some scope → ∀ col, col ≠ .combHit → col ≠ .combExcluded →
    scope.stat.tally col = db.tallyOf cfg scope.statements col

/-- Statistics that are current are steady. -/
theorem Current.steady (h : db.Current cfg u) : db.Steady cfg u := by
  intro scope hu col _ _
  rw [h.exact.tally hu]

/-- An exclusion keeps statistics steady, whatever the configuration it is carried out under. -/
theorem Target.Toggled.steady {t : db.Target u x} {excluded alsoLine : Bool}
    {o : ExclusionOutcome} (h : t.Toggled cfg' excluded alsoLine o db') (hf : db.Forest)
    (hv : db.Steady cfg v) : db'.Steady cfg v := by
  intro scope hscope col hhit hexcluded
  have hself := Database.Toggled.share_steady h hf t.st_eq t.root_eq rfl cfg hhit hexcluded
  exact Database.Toggled.tally_eq h hf t.st_eq t.root_eq t.node_eq t.mem hself
    (fun scope hscope => hv scope hscope col hhit hexcluded) hscope

/-- A steady statistic differs in its hits only from that of a recalculation. -/
theorem Steady.recalcScope_eq (h : db.Steady cfg u) (hf : db.Forest) (hu : db.scope? u = some scope)
    {stat : Statistic} (hrecalc : db.recalcScope u cfg = .ok (stat, db')) {col : Column}
    (hhit : col ≠ .combHit) (hexcluded : col ≠ .combExcluded) :
    scope.stat.tally col = stat.tally col := by
  rw [h scope hu col hhit hexcluded, (hf.recalculated hu hrecalc).tally]

/-- No more is hit than there is, so that the rest can be counted. -/
theorem Current.combMissed (h : db.Current cfg u) (hu : db.scope? u = some scope) :
    scope.stat.combHit ≤ scope.stat.combTotal ∧ ∃ missed, scope.stat.combMissed = .ok missed := by
  have hle : scope.stat.combHit.toNat ≤ scope.stat.combTotal.toNat :=
    (h.exact.ordered hu).combHit_le
  refine ⟨UInt32.le_iff_toNat_le.mpr hle, scope.stat.combTotal - scope.stat.combHit, ?_⟩
  rw [Statistic.combMissed, Counter.sub, if_pos hle]

end Database

namespace Session

open Database

variable {s s' : Session} {l : Ledger} {i : Instruction} {cfg : ScoringConfig}

/-- If the ledger holds no other configuration, all scopes are current under this one. -/
def Kept (cfg : ScoringConfig) (s : Session) (l : Ledger) : Prop :=
  (∀ cfg' ∈ l.configs, cfg' = cfg) → ∀ u, s.db.Current cfg u

/-- An instruction keeps all statistics steady, as long as its configuration is the one they are of.
-/
theorem Kept.step (hs : Kept cfg s l) (hf : s.db.Forest) (hl : s.engine = l.engine)
    (h : s.Followed i s') : Kept cfg s' (l.enter i) := by
  intro hconfigs u
  -- An action is carried out under the configuration that it adds to the ledger.
  have hacted (configs : List ScoringConfig)
      (hall : ∀ cfg' ∈ l.engine.config :: configs, cfg' = cfg) : s.engine.config = cfg := by
    rw [hl]
    exact hall _ List.mem_cons_self
  cases h with
  | configured config => exact hs hconfigs u
  | passed hscore =>
    rw [← hacted _ hconfigs]
    exact (Engine.scoreAll_ok hf hscore).2.1 u
  | refused hne =>
    rw [Ledger.enter_act hne] at hconfigs
    exact hs (fun cfg' hcfg' => hconfigs cfg' (List.mem_cons_of_mem _ hcfg')) u
  | recalculated hrecalc =>
    have hcurrent := hs (fun cfg' hcfg' => hconfigs cfg' (List.mem_cons_of_mem _ hcfg')) u
    rw [hacted _ hconfigs] at hrecalc
    exact hrecalc.current hf hcurrent
  | toggled t hne ht =>
    rw [Ledger.enter_act hne] at hconfigs
    have hcurrent := hs (fun cfg' hcfg' => hconfigs cfg' (List.mem_cons_of_mem _ hcfg')) u
    rw [hacted _ hconfigs] at ht
    exact ht.current hf hcurrent

/-- What a session without passes and recalculations keeps. -/
theorem steady_step (hf : s.db.Forest) (h : s.Followed i s') (hpass : i ≠ .act .scoreAll)
    (hrecalc : ∀ u, i ≠ .act (.recalcScope u)) (hs : ∀ u, s.db.Steady cfg u) (u : ScopeId) :
    s'.db.Steady cfg u := by
  cases h with
  | configured | refused => exact hs u
  | passed => exact absurd rfl hpass
  | recalculated => exact absurd rfl (hrecalc _)
  | toggled t hne ht => exact ht.steady hf (hs u)

/-- A change of the configuration takes effect on what is cached at the next pass, if exclusions are
carried out under the configuration of the last one: then each statistic is what a recalculation
under that configuration returns, with no more hit than there is. Exclusions under other
configurations keep the totals and the lines right, but not the hits. -/
theorem followAll_statistics {db db' : Database} (hdb : db.check = .ok ()) (engine : Engine)
    {stats : List (ScopeId × Statistic)} {engine' : Engine}
    (hpass : engine.scoreAll db = .ok (stats, engine', db')) {instructions : List Instruction}
    {s : Session} (hrun : Session.followAll ⟨engine', db'⟩ instructions = .ok s) {u : ScopeId}
    {scope : Scope} (hu : s.db.scope? u = some scope) :
    ((∀ cfg ∈ (Ledger.enterAll ⟨engine', []⟩ instructions).configs, cfg = engine.config) →
      (∃ db₂, s.db.recalcScope u engine.config = .ok (scope.stat, db₂)) ∧
        scope.stat.combHit ≤ scope.stat.combTotal ∧
          ∃ missed, scope.stat.combMissed = .ok missed) ∧
    ((∀ i ∈ instructions, i ≠ .act .scoreAll ∧ ∀ u, i ≠ .act (.recalcScope u)) →
      ∀ stat db₂, s.db.recalcScope u engine.config = .ok (stat, db₂) →
        scope.stat = { stat with
          combHit := scope.stat.combHit, combExcluded := scope.stat.combExcluded }) := by
  have hf := forest_of_check hdb
  obtain ⟨-, hcurrent, db₁, hcleared, -, hruns⟩ := Engine.scoreAll_ok hf hpass
  have hf' : db'.Forest := hf.congr
    (bare_eq_of_unscored ((unscored_of_recalculations hruns).trans hcleared.unscored))
  refine ⟨fun hconfigs => ?_, fun honly stat db₂ hrecalc => ?_⟩
  · obtain ⟨hfs, -, hkept⟩ := followAll_induction (P := Kept engine.config)
      (l := ⟨engine', []⟩) hf' rfl (fun i _ hf hl h hs => hs.step hf hl h) (fun _ => hcurrent) hrun
    have hcur := hkept hconfigs u
    exact ⟨hcur.recalcScope_eq hfs hu, hcur.combMissed hu⟩
  · obtain ⟨hfs, -, hsteady⟩ := followAll_induction
      (P := fun s _ => ∀ u, s.db.Steady engine.config u) (l := ⟨engine', []⟩) hf' rfl
      (fun i hi hf _ h hs => steady_step hf h (honly i hi).1 (honly i hi).2 hs)
      (fun u => (hcurrent u).steady) hrun
    refine Statistic.tally_inj (funext fun col => ?_)
    cases col with
    | combHit | combExcluded => rfl
    | _ => exact (hsteady u).recalcScope_eq hfs hu hrecalc (by decide) (by decide)

theorem followAll_statistics_nestedEdges :
    nestedEdges.check = .ok () ∧ ∃ stats engine db s scope,
      (Engine.new .rootsOnly).scoreAll nestedEdges = .ok (stats, engine, db) ∧
      Session.followAll ⟨engine, db⟩ [.setConfig .default, .setConfig .rootsOnly,
        .act (.setExclusion ⟨0⟩ ⟨1⟩ true true), .setConfig .default] = .ok s ∧
      s.db.scope? ⟨0⟩ = some scope ∧ scope.stat = ⟨1, 1, 1, 1, 1, 1⟩ ∧
      (∀ cfg ∈ (Ledger.enterAll ⟨engine, []⟩ [.setConfig .default, .setConfig .rootsOnly,
        .act (.setExclusion ⟨0⟩ ⟨1⟩ true true), .setConfig .default]).configs,
          cfg = .rootsOnly) ∧
      ∃ db₂, s.db.recalcScope ⟨0⟩ .rootsOnly = .ok (scope.stat, db₂) := by
  have hcheck : nestedEdges.check = .ok () := by decide
  have hrun : ((Engine.new .rootsOnly).scoreAll nestedEdges >>= fun r =>
      Checked.request (Session.followAll ⟨r.2.1, r.2.2⟩ [.setConfig .default,
        .setConfig .rootsOnly, .act (.setExclusion ⟨0⟩ ⟨1⟩ true true), .setConfig .default]) >>=
          fun s => .ok ((s.db.scope? ⟨0⟩).map Scope.stat)) = .ok (some ⟨1, 1, 1, 1, 1, 1⟩) := by
    decide +kernel
  refine ⟨hcheck, ?_⟩
  obtain ⟨⟨stats, engine, db⟩, hpass, hrun⟩ := bind_eq_ok_iff.mp hrun
  obtain ⟨s, hs, hrun⟩ := bind_eq_ok_iff.mp hrun
  obtain ⟨scope, hu, hstat⟩ := Option.map_eq_some_iff.mp (Except.ok.inj hrun)
  obtain ⟨rfl, -⟩ := Engine.scoreAll_ok (forest_of_check hcheck) hpass
  have hsteps := Checked.request_eq_ok_iff.mp hs
  have hconfigs : ∀ cfg ∈ (Ledger.enterAll ⟨⟨.rootsOnly, some .rootsOnly⟩, []⟩
      [.setConfig .default, .setConfig .rootsOnly, .act (.setExclusion ⟨0⟩ ⟨1⟩ true true),
        .setConfig .default]).configs, cfg = .rootsOnly := by
    decide
  exact ⟨stats, _, db, s, scope, hpass, hsteps, hu, hstat, hconfigs,
    ((followAll_statistics hcheck _ hpass hsteps hu).1 hconfigs).1⟩

/-- An exclusion under another configuration than that of the pass: two points are reported as hit
where the pass has counted one, and what is missing cannot be counted. -/
theorem followAll_spoils_statistics :
    nestedEdges.check = .ok () ∧ ∃ stats engine db s scope stat db₂,
      (Engine.new .rootsOnly).scoreAll nestedEdges = .ok (stats, engine, db) ∧
      Session.followAll ⟨engine, db⟩
        [.setConfig .default, .act (.setExclusion ⟨0⟩ ⟨1⟩ true false)] = .ok s ∧
      s.db.scope? ⟨0⟩ = some scope ∧ scope.stat = ⟨2, 1, 2, 0, 1, 0⟩ ∧
      scope.stat.combMissed = .error .counterUnderflow ∧
      s.db.recalcScope ⟨0⟩ .rootsOnly = .ok (stat, db₂) ∧ stat = ⟨1, 1, 1, 0, 1, 0⟩ := by
  have hrun : ((Engine.new .rootsOnly).scoreAll nestedEdges >>= fun r =>
      Checked.request (Session.followAll ⟨r.2.1, r.2.2⟩
        [.setConfig .default, .act (.setExclusion ⟨0⟩ ⟨1⟩ true false)]) >>= fun s =>
          (s.db.recalcScope ⟨0⟩ .rootsOnly).map fun r =>
            ((s.db.scope? ⟨0⟩).map Scope.stat, r.1)) =
        .ok (some ⟨2, 1, 2, 0, 1, 0⟩, ⟨1, 1, 1, 0, 1, 0⟩) := by
    decide +kernel
  refine ⟨by decide, ?_⟩
  obtain ⟨⟨stats, engine, db⟩, hpass, hrun⟩ := bind_eq_ok_iff.mp hrun
  obtain ⟨s, hs, hrun⟩ := bind_eq_ok_iff.mp hrun
  rcases hrecalc : s.db.recalcScope ⟨0⟩ .rootsOnly with refusal | ⟨stat, db₂⟩
  · rw [hrecalc] at hrun
    cases hrun
  rw [hrecalc] at hrun
  obtain ⟨hfound, hstat⟩ := Prod.mk.inj (Except.ok.inj hrun)
  obtain ⟨scope, hu, hcached⟩ := Option.map_eq_some_iff.mp hfound
  refine ⟨stats, engine, db, s, scope, stat, db₂, hpass, Checked.request_eq_ok_iff.mp hs, hu,
    hcached, ?_, hrecalc, hstat⟩
  rw [hcached]
  decide

end Session

end LogicCoverage
