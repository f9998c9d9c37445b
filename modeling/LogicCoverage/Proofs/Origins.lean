import LogicCoverage.Proofs.Ledger

/-!
# Where underline ids come from

A number was there before an action, or its node is the site of a point under the configuration of
the action. A pass of an outdated engine clears the trees of all statements. Hence each number
belongs to a site under some configuration of the ledger, and the numbers of two configurations stand
side by side only where the ledger holds both.
-/

namespace LogicCoverage

open Relation

/-! ## New numbers -/

namespace Database

variable {db db' : Database} {cfg : ScoringConfig} {u : ScopeId} {x y : ExprId} {k : UInt32}

/-- A site is a node of a statement's tree. -/
theorem HasSite.mem_nodes (h : db.HasSite cfg x) (hf : db.Forest) :
    ∃ id st, db.stmt? id = some st ∧ x ∈ db.nodes st.root := by
  obtain ⟨id, st, n, hs, hmem, hx⟩ := h
  obtain ⟨er, her, -⟩ := hf.root hs
  exact ⟨id, st, hs, hf.site_mem_nodes her hmem hx⟩

/-- A site belongs to a point that some node is scored on. -/
theorem HasSite.exists_point (h : db.HasSite cfg x) : ∃ n points,
    db.scoredPoints n cfg = .ok (some points) ∧ ∃ p ∈ points, p.site = x := by
  obtain ⟨-, -, n, -, -, hx⟩ := h
  exact ⟨n, mem_sites_iff.mp hx⟩

/-- Steps that keep what is bare, and give numbers to sites only, do so one after the other. -/
theorem number?_of_steps {R : Database → Database → Prop}
    (hbare : ∀ {d d' : Database}, R d d' → d'.bare = d.bare)
    (hnew : ∀ {d d' : Database}, d.Forest → R d d' → d'.number? x = some k →
      d.number? x = some k ∨ d'.HasSite cfg x)
    (h : ReflTransGen R db db') (hf : db.Forest) :
    db'.bare = db.bare ∧
      (db'.number? x = some k → db.number? x = some k ∨ db'.HasSite cfg x) := by
  induction h with
  | refl => exact ⟨rfl, .inl⟩
  | tail _ hstep ih =>
    obtain ⟨hb, hold⟩ := ih
    refine ⟨(hbare hstep).trans hb, fun hk => ?_⟩
    rcases hnew (hf.congr hb) hstep hk with hbefore | hsite
    · exact (hold hbefore).imp id ((hf.congr hb).hasSite_congr (hbare hstep))
    · exact .inr hsite

/-- A number was there before, or belongs to a site. -/
theorem Recalculation.number?_eq_some (h : Recalculation cfg db db') (hf : db.Forest)
    (hk : db'.number? x = some k) : db.number? x = some k ∨ db'.HasSite cfg x := by
  obtain ⟨u, scope, stat, -, h⟩ := h
  obtain ⟨db₁, hruns, hnodes, -⟩ := h.rescorings
  rw [hnodes.number?] at hk
  obtain ⟨hb, hnew⟩ := number?_of_steps (fun hstep => hstep.bare)
    (fun hf hstep => hstep.number?_eq_some hf) hruns hf
  exact (hnew hk).imp id ((hf.congr hb).hasSite_congr hnodes.bare)

/-- Likewise for both scorings of an exclusion. -/
theorem Turned.number?_eq_some {stmt : StmtId} {st : Statement} {excluded : Bool}
    {before after : TreeCounts} (h : db.Turned cfg st.root y excluded before after db')
    (hf : db.Forest) (hs : db.stmt? stmt = some st) (hk : db'.number? x = some k) :
    db.number? x = some k ∨ db'.HasSite cfg x := by
  obtain ⟨db₁, m₁, m₂, m₃, m₄, hbefore, hafter⟩ := h
  have hb := hbefore.bare_setExcluded y excluded
  have hs₂ : (db₁.setExcluded y excluded).stmt? stmt = some st :=
    (hbefore.stmt?_setExcluded y excluded stmt).trans hs
  have hfirst : Rescored cfg db db₁ := ⟨stmt, st, m₁, before, m₂, hs, hbefore⟩
  have hsecond : Rescored cfg (db₁.setExcluded y excluded) db' :=
    ⟨stmt, st, m₃, after, m₄, hs₂, hafter⟩
  rcases hsecond.number?_eq_some (hf.congr hb) hk with hold | hsite
  · rw [number?_setExcluded] at hold
    refine (hfirst.number?_eq_some hf hold).imp id ((hf.congr hbefore.bare).hasSite_congr ?_)
    exact hafter.bare.trans (bare_setExcluded db₁ y excluded)
  · exact .inr hsite

/-- Likewise for the whole exclusion. -/
theorem Target.Toggled.number?_eq_some {t : db.Target u y} {excluded alsoLine : Bool}
    {o : ExclusionOutcome} (h : t.Toggled cfg excluded alsoLine o db') (hf : db.Forest)
    (hk : db'.number? x = some k) : db.number? x = some k ∨ db'.HasSite cfg x := by
  obtain ⟨before, after, db₁, hturned, hnodes, -⟩ := h.turned
  rw [hnodes.number?] at hk
  exact (hturned.number?_eq_some hf t.st_eq hk).imp id
    ((hf.congr hturned.bare).hasSite_congr hnodes.bare)

end Database

/-! ## Cleared trees -/

namespace Engine

open Database

variable {db db' : Database} {engine engine' : Engine} {stats : List (ScopeId × Statistic)}
  {x : ExprId} {k : UInt32}

/-- Every number that is to be cleared is. -/
theorem number?_foldl_of_mem {nodes : List ExprId} (hx : x ∈ nodes) (db : Database) :
    (nodes.foldl (fun db id => db.setUnderline id none) db).number? x = none := by
  induction nodes generalizing db with
  | nil => cases hx
  | cons n nodes ih =>
    by_cases hmem : x ∈ nodes
    · exact ih hmem (db.setUnderline n none)
    · obtain rfl : x = n := (List.mem_cons.mp hx).resolve_right hmem
      rcases (cleared_of_foldl nodes (db.setUnderline x none)).number? x with hsame | hnone
      · exact hsame.trans ((number?_setUnderline_none db x x).trans (if_pos rfl))
      · exact hnone

/-- No node of a tree that was cleared has a number. -/
theorem number?_of_foldlM_reset {stmts : List StmtId} (hf : db.Forest)
    (h : stmts.foldlM (fun db stmt => db.resetUnderlines stmt) db = .ok db') {id : StmtId}
    {st : Statement} (hid : id ∈ stmts) (hs : db.stmt? id = some st) (hx : x ∈ db.nodes st.root) :
    db'.number? x = none := by
  induction stmts generalizing db with
  | nil => cases hid
  | cons stmt stmts ih =>
    rw [List.foldlM_cons] at h
    obtain ⟨db₁, hreset, h⟩ := bind_eq_ok_iff.mp h
    have hsingle : [stmt].foldlM (fun db stmt => db.resetUnderlines stmt) db = .ok db₁ := by
      rw [List.foldlM_cons, hreset]
      rfl
    have hfirst : db.Cleared db₁ := cleared_of_foldlM hsingle
    have hb := bare_eq_of_unscored hfirst.unscored
    by_cases hmem : id ∈ stmts
    · refine ih (hf.congr hb) h hmem ?_ ?_
      · rwa [stmt?_eq_of_unscored hfirst.unscored]
      · rwa [nodes_congr hb]
    · obtain rfl : id = stmt := (List.mem_cons.mp hid).resolve_right hmem
      obtain ⟨er, her, -⟩ := hf.root hs
      rw [resetUnderlines, db.stmt_eq_ok_iff.mpr hs, ok_bind, hf.subtree_eq her, ok_bind] at hreset
      cases hreset
      rcases (cleared_of_foldlM h).number? x with hsame | hnone
      · exact hsame.trans (number?_foldl_of_mem hx db)
      · exact hnone

/-- After a pass, a number was there before, in no tree if the pass has cleared the trees, or belongs
to a site. -/
theorem number?_of_scoreAll (hf : db.Forest)
    (h : engine.scoreAll db = .ok (stats, engine', db')) (hk : db'.number? x = some k) :
    (db.number? x = some k ∧ (engine.isOutdated = true → ¬ ∃ id st, db.stmt? id = some st ∧
      x ∈ db.nodes st.root)) ∨ db'.HasSite engine.config x := by
  obtain ⟨db₁, hcleared, -, hreset, h⟩ := exists_pass h
  obtain ⟨⟨stats', db₂⟩, hpass, h⟩ := bind_eq_ok_iff.mp h
  cases h
  have hf₁ := hf.congr (bare_eq_of_unscored hcleared.unscored)
  obtain ⟨hruns, -⟩ := foldlM_scoreScope_ok hf₁ (fun u hu => exists_scope?_of_mem hu) hpass
  obtain ⟨-, hnew⟩ := number?_of_steps (fun hstep => bare_eq_of_unscored hstep.unscored)
    (fun hf hstep => hstep.number?_eq_some hf) hruns hf₁
  refine (hnew hk).imp (fun hold => ⟨?_, ?_⟩) id
  · rcases hcleared.number? x with hsame | hnone
    · exact hsame.symm.trans hold
    · cases hold.symm.trans hnone
  · rintro houtdated ⟨id, st, hs, hx⟩
    cases hold.symm.trans (number?_of_foldlM_reset hf (hreset houtdated) (mem_stmtIds hs) hs hx)

end Engine

/-! ## Runs -/

namespace Session

open Database

/-- Every number belongs to a site under some configuration of the ledger. -/
def Sited (s : Session) (l : Ledger) : Prop :=
  ∀ x k, s.db.number? x = some k → ∃ cfg ∈ l.configs, s.db.HasSite cfg x

variable {s s' : Session} {l : Ledger} {i : Instruction}

/-- What was there before keeps its configurations; what is new has that of the engine. -/
theorem Sited.of_number? (hs : s.Sited l) (hf : s.db.Forest) (hl : s.engine = l.engine)
    (hb : s'.db.bare = s.db.bare)
    (h : ∀ x k, s'.db.number? x = some k →
      s.db.number? x = some k ∨ s'.db.HasSite s.engine.config x) (engine : Engine) :
    s'.Sited ⟨engine, l.engine.config :: l.configs⟩ := by
  intro x k hk
  rcases h x k hk with hold | hsite
  · obtain ⟨cfg, hcfg, hsite⟩ := hs x k hold
    exact ⟨cfg, List.mem_cons_of_mem _ hcfg, hf.hasSite_congr hb hsite⟩
  · exact ⟨s.engine.config, hl ▸ List.mem_cons_self, hsite⟩

/-- An instruction keeps every number at a site of a recorded configuration. -/
theorem Sited.step (hs : s.Sited l) (hf : s.db.Forest) (hl : s.engine = l.engine)
    (h : s.Followed i s') : s'.Sited (l.enter i) := by
  have hb := h.bare hf
  cases h with
  | configured config => exact hs
  | passed hscore =>
    cases houtdated : l.engine.isOutdated with
    | false =>
      rw [Ledger.enter, houtdated]
      exact hs.of_number? hf hl hb (fun x k hk =>
        (Engine.number?_of_scoreAll hf hscore hk).imp And.left id) _
    | true =>
      intro x k hk
      rw [Ledger.enter, houtdated]
      rcases Engine.number?_of_scoreAll hf hscore hk with ⟨hold, hcleared⟩ | hsite
      · obtain ⟨cfg, -, hsite⟩ := hs x k hold
        exact absurd (hsite.mem_nodes hf) (hcleared (hl ▸ houtdated))
      · exact ⟨s.engine.config, hl ▸ List.mem_cons_self, hsite⟩
  | refused hne =>
    rw [Ledger.enter_act hne]
    exact hs.of_number? hf hl rfl (fun x k hk => .inl hk) l.engine
  | recalculated hrecalc =>
    exact hs.of_number? hf hl hb (fun x k hk => hrecalc.number?_eq_some hf hk) l.engine
  | toggled t hne ht =>
    rw [Ledger.enter_act hne]
    exact hs.of_number? hf hl hb (fun x k hk => ht.number?_eq_some hf hk) l.engine

/-- The engine goes by the configuration of its last pass, which need not be that of the numbers. On
a consistent database that brings no numbers along, whatever a session is told, each node with a
number is the site of a point that is scored under some configuration of the ledger; under that of
the engine if the ledger holds no other, as it does after a pass of an outdated engine. -/
theorem followAll_numbers {db : Database} (hdb : db.check = .ok ())
    (hnone : ∀ x, db.number? x = none) (engine : Engine) {instructions : List Instruction}
    {s : Session} (hrun : Session.followAll ⟨engine, db⟩ instructions = .ok s) {x : ExprId}
    {k : UInt32} (hk : s.db.number? x = some k) :
    (∃ cfg ∈ (Ledger.enterAll ⟨engine, []⟩ instructions).configs, ∃ n points,
      s.db.scoredPoints n cfg = .ok (some points) ∧ ∃ p ∈ points, p.site = x) ∧
    ((∀ cfg ∈ (Ledger.enterAll ⟨engine, []⟩ instructions).configs, cfg = s.engine.config) →
      ∃ n points, s.db.scoredPoints n s.engine.config = .ok (some points) ∧
        ∃ p ∈ points, p.site = x) ∧
    (∀ before, instructions = before ++ [.act .scoreAll] →
      (Ledger.enterAll ⟨engine, []⟩ before).engine.isOutdated = true →
      ∃ n points, s.db.scoredPoints n s.engine.config = .ok (some points) ∧
        ∃ p ∈ points, p.site = x) := by
  have hstart : Session.Sited ⟨engine, db⟩ ⟨engine, []⟩ := by
    intro x k hk
    cases (hnone x).symm.trans hk
  obtain ⟨-, hengine, hsited⟩ := followAll_induction (P := Sited) (forest_of_check hdb) rfl
    (fun i _ hf hl h hs => hs.step hf hl h) hstart hrun
  obtain ⟨cfg, hcfg, hsite⟩ := hsited x k hk
  refine ⟨⟨cfg, hcfg, hsite.exists_point⟩, fun hsame => ?_, fun before hbefore houtdated => ?_⟩
  · rw [← hsame cfg hcfg]
    exact hsite.exists_point
  · -- The pass has left nothing but its own configuration in the ledger.
    rw [hbefore, Ledger.enterAll_concat, Ledger.enter, houtdated] at hcfg hengine
    have hconfig : cfg = s.engine.config := by
      rw [hengine]
      exact List.mem_singleton.mp hcfg
    rw [← hconfig]
    exact hsite.exists_point

theorem followAll_numbers_nestedEdges :
    nestedEdges.check = .ok () ∧ (∀ x, nestedEdges.number? x = none) ∧ ∃ s,
      Session.followAll ⟨.new .default, nestedEdges⟩
        [.act .scoreAll, .setConfig .rootsOnly, .act .scoreAll] = .ok s ∧
      s.db.number? ⟨1⟩ = some 1 ∧
      (Ledger.enterAll ⟨.new .default, []⟩
        [.act .scoreAll, .setConfig .rootsOnly]).engine.isOutdated = true ∧
      ∃ n points, s.db.scoredPoints n s.engine.config = .ok (some points) ∧
        ∃ p ∈ points, p.site = ⟨1⟩ := by
  have hcheck : nestedEdges.check = .ok () := by decide
  have hrun : (Session.followAll ⟨.new .default, nestedEdges⟩
      [.act .scoreAll, .setConfig .rootsOnly, .act .scoreAll]).map (·.db.number? ⟨1⟩) =
        .ok (some 1) := by
    decide +kernel
  have houtdated : (Ledger.enterAll ⟨.new .default, []⟩
      [.act .scoreAll, .setConfig .rootsOnly]).engine.isOutdated = true := by decide
  refine ⟨hcheck, number?_nestedEdges, ?_⟩
  rcases hs : Session.followAll ⟨.new .default, nestedEdges⟩
      [.act .scoreAll, .setConfig .rootsOnly, .act .scoreAll] with fault | s
  · rw [hs] at hrun
    cases hrun
  rw [hs] at hrun
  have hk : s.db.number? ⟨1⟩ = some 1 := Except.ok.inj hrun
  exact ⟨s, rfl, hk, houtdated,
    (followAll_numbers hcheck number?_nestedEdges (.new .default) hs hk).2.2 _ rfl houtdated⟩

/-- A recalculation under another configuration gives a number, the engine goes back to the
configuration of its last pass, and the next pass keeps the number of a node that it does not
score. -/
theorem followAll_mixes_numbers :
    nestedEdges.check = .ok () ∧ (∀ x, nestedEdges.number? x = none) ∧ ∃ s,
      Session.followAll ⟨.new .rootsOnly, nestedEdges⟩
        [.act .scoreAll, .setConfig .default, .act (.recalcScope ⟨0⟩), .setConfig .rootsOnly,
          .act .scoreAll] = .ok s ∧
      s.engine.config = .rootsOnly ∧ s.db.number? ⟨0⟩ = some 2 ∧
      ¬ ∃ n points, s.db.scoredPoints n .rootsOnly = .ok (some points) ∧
        ∃ p ∈ points, p.site = ⟨0⟩ := by
  have hrun : (Session.followAll ⟨.new .rootsOnly, nestedEdges⟩
      [.act .scoreAll, .setConfig .default, .act (.recalcScope ⟨0⟩), .setConfig .rootsOnly,
        .act .scoreAll]).map (fun s => (s.engine.config, s.db.number? ⟨0⟩,
          s.db.exprIds.map (s.db.sites .rootsOnly))) = .ok (.rootsOnly, some 2, [[], [⟨1⟩]]) := by
    decide +kernel
  refine ⟨by decide, number?_nestedEdges, ?_⟩
  rcases hs : Session.followAll ⟨.new .rootsOnly, nestedEdges⟩
      [.act .scoreAll, .setConfig .default, .act (.recalcScope ⟨0⟩), .setConfig .rootsOnly,
        .act .scoreAll] with fault | s
  · rw [hs] at hrun
    cases hrun
  rw [hs] at hrun
  obtain ⟨hconfig, hfound⟩ := Prod.mk.inj (Except.ok.inj hrun)
  obtain ⟨hnumber, hsites⟩ := Prod.mk.inj hfound
  refine ⟨s, rfl, hconfig, hnumber, ?_⟩
  rintro ⟨n, hn⟩
  have hx : ⟨0⟩ ∈ s.db.sites .rootsOnly n := mem_sites_iff.mpr hn
  obtain ⟨e, he⟩ := exists_expr?_of_mem_sites hx
  have hmem : s.db.sites .rootsOnly n ∈ [[], [⟨1⟩]] :=
    hsites ▸ List.mem_map_of_mem (mem_exprIds he)
  have hall : ∀ sites ∈ ([[], [⟨1⟩]] : List (List ExprId)), ⟨0⟩ ∉ sites := by decide
  exact hall _ hmem hx

end Session

end LogicCoverage
