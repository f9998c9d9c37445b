import LogicCoverage.Proofs.Addresses

/-!
# Excluding a gap

A row of a report gives the number of its site, and the site can be excluded by that number. The
rows whose sites lie in the tree below it go, and all others stay as they are.
-/

namespace LogicCoverage

/-- What only one element of a list satisfies is found. -/
theorem find?_eq_some_of_unique {α : Type} {p : α → Bool} {l : List α} {a : α} (hmem : a ∈ l)
    (ha : p a = true) (hunique : ∀ b ∈ l, p b = true → b = a) : l.find? p = some a := by
  cases hfind : l.find? p with
  | none => exact absurd ha (List.find?_eq_none.mp hfind a hmem)
  | some b => rw [hunique b (List.mem_of_find?_eq_some hfind) (List.find?_some hfind)]

namespace Database

variable {db db' : Database} {cfg : ScoringConfig} {root x y : ExprId} {er ex : Expression}

/-! ## What is muted below a node -/

/-- The tree below a node was muted, and nothing else. -/
structure Silenced (db : Database) (x : ExprId) (db' : Database) : Prop where
  bare : db'.bare = db.bare
  below {y : ExprId} : y ∈ db.nodes x → db'.muted y = true
  beside {y : ExprId} : y ∉ db.nodes x → db'.muted y = db.muted y

namespace Silenced

variable (h : db.Silenced x db')

include h

/-- What is not muted afterwards was not before. -/
theorem not_muted (hm : db'.muted y = false) : y ∉ db.nodes x ∧ db.muted y = false := by
  have hy : y ∉ db.nodes x := by
    intro hy
    cases hm.symm.trans (h.below hy)
  exact ⟨hy, (h.beside hy).symm.trans hm⟩

variable (hf : db.Forest)

include hf

/-- The points of a node are those of before, muted anew. -/
theorem points_eq {n : ExprId} {en : Expression} (hn : db.expr? n = some en) :
    db'.points cfg n = (db.points cfg n).map (Point.mute db'.muted) := by
  obtain ⟨en', hen', -⟩ := exists_expr?_of_bare h.bare hn
  rw [(hf.congr h.bare).points_eq_mute hen', hf.points_eq_mute hn, h.bare, List.map_map]
  rfl

/-- A point goes on missing unless its site is below the node. -/
theorem missing_mute {n : ExprId} {en : Expression} (hn : db.expr? n = some en) {p : Point}
    (hp : p ∈ db.points cfg n) :
    (p.mute db'.muted).missing = (p.missing && decide (p.site ∉ db.nodes x)) := by
  have hex := hf.excluded_of_mem_points hn hp
  by_cases hy : p.site ∈ db.nodes x
  · simp [Point.missing, Point.covered, Point.mute, h.below hy, hy]
  · simp [Point.missing, Point.covered, Point.mute, h.beside hy, hex, hy]

/-- The missing points are those of before whose sites are not below the node. -/
theorem filter_missing {n : ExprId} {en : Expression} (hn : db.expr? n = some en) :
    (db'.points cfg n).filter Point.missing =
      ((db.points cfg n).filter Point.missing).filter fun p => decide (p.site ∉ db.nodes x) := by
  rw [h.points_eq hf hn, List.filter_map, List.filter_filter]
  have hsame : (db.points cfg n).filter (Point.missing ∘ Point.mute db'.muted) =
      (db.points cfg n).filter fun p => decide (p.site ∉ db.nodes x) && p.missing := by
    apply List.filter_congr
    intro p hp
    rw [Function.comp_apply, h.missing_mute hf hn hp, Bool.and_comm]
  rw [hsame]
  refine (List.map_congr_left fun p hp => ?_).trans (List.map_id _)
  rw [List.mem_filter, Bool.and_eq_true, decide_eq_true_eq] at hp
  rw [Point.mute, h.beside hp.2.1, ← hf.excluded_of_mem_points hn hp.1, id]

/-- The rows of a tree are those of before whose sites are not below the node, if these keep their
numbers. -/
theorem treeGaps_eq (hr : db.expr? root = some er)
    (hkept : ∀ row ∈ db.treeGaps cfg root, row.site ∉ db.nodes x →
      db'.number? row.site = row.underline) :
    db'.treeGaps cfg root =
      (db.treeGaps cfg root).filter fun row => decide (row.site ∉ db.nodes x) := by
  rw [treeGaps, treeGaps, List.filter_flatMap, nodes_congr h.bare]
  apply List.flatMap_congr
  intro n hn
  obtain ⟨en, hen⟩ := hf.expr?_of_mem_nodes hr hn
  rw [gaps, gaps, h.filter_missing hf hen, List.filter_map]
  apply List.map_congr_left
  intro p hp
  rw [List.mem_filter, List.mem_filter, decide_eq_true_eq] at hp
  have hrow : db.gap n p ∈ db.treeGaps cfg root :=
    mem_treeGaps.mpr ⟨n, hn, p, hp.1.1, hp.1.2, rfl⟩
  have hnumber : db'.number? p.site = db.number? p.site := hkept _ hrow hp.2
  rw [gap, hnumber]
  rfl

/-- A served tree stays so when numbers stay. -/
theorem served (hserved : db.Served cfg root) (hr : db.expr? root = some er)
    (hnumber : ∀ y, db'.number? y = db.number? y) : db'.Served cfg root where
  awaiting := by
    obtain ⟨er', her', -⟩ := exists_expr?_of_bare h.bare hr
    rw [List.eq_nil_iff_forall_not_mem]
    intro y hawait
    obtain ⟨hm, hnone, n, hn, ⟨p, hp, hmiss⟩, hsite⟩ :=
      (mem_awaiting (hf.congr h.bare) her').mp hawait
    rw [nodes_congr h.bare] at hn
    obtain ⟨en, hen⟩ := hf.expr?_of_mem_nodes hr hn
    obtain ⟨en', hen', -⟩ := exists_expr?_of_bare h.bare hen
    have hmem : p ∈ (db'.points cfg n).filter Point.missing := List.mem_filter.mpr ⟨hp, hmiss⟩
    rw [h.filter_missing hf hen, List.mem_filter, List.mem_filter] at hmem
    rw [← (hf.congr h.bare).sites_bare hen', h.bare, hf.sites_bare hen] at hsite
    have hold : y ∈ db.awaiting cfg root := (mem_awaiting hf hr).mpr
      ⟨(h.not_muted hm).2, (hnumber y).symm.trans hnone, n, hn, ⟨p, hmem.1.1, hmem.1.2⟩, hsite⟩
    rw [hserved.awaiting] at hold
    exact List.not_mem_nil hold
  room {y k} hy hk := by
    rw [nodes_congr h.bare] at hy
    rw [hnumber] at hk
    exact hserved.room hy hk

end Silenced

/-- An exclusion silences the tree below the node. -/
theorem Forest.silenced_setExcluded (hf : db.Forest) (he : db.expr? x = some ex) :
    db.Silenced x (db.setExcluded x true) where
  bare := bare_setExcluded db x true
  below hy := hf.muted_setExcluded_true he hy
  beside hy := hf.muted_setExcluded he hy

theorem Target.Toggled.silenced {u : ScopeId} {t : db.Target u x} {alsoLine : Bool}
    {o : ExclusionOutcome} (h : t.Toggled cfg true alsoLine o db') (hf : db.Forest) :
    db.Silenced x db' := by
  have hb := h.bare
  obtain ⟨before, after, db₁, hturned, hnodes, -⟩ := h.turned
  have hmuted := hnodes.muted (hf.congr hturned.bare)
  refine ⟨hb, fun hy => ?_, fun hy => ?_⟩
  · rw [hmuted]
    exact hturned.muted_of_mem hf t.node_eq rfl hy
  · rw [hmuted]
    exact hturned.muted_of_notMem hf t.node_eq hy

/-- The report loses the rows whose sites lie below the node, and keeps the others. -/
theorem Target.Toggled.treeGaps_eq {u : ScopeId} {t : db.Target u x} {alsoLine : Bool}
    {o : ExclusionOutcome} (h : t.Toggled cfg true alsoLine o db') (hf : db.Forest)
    (ha : db.Audible) (hidle : db.Idle cfg t.st.root) :
    db'.treeGaps cfg t.st.root =
      (db.treeGaps cfg t.st.root).filter fun row => decide (row.site ∉ db.nodes x) := by
  have hsilenced := h.silenced hf
  apply hsilenced.treeGaps_eq hf t.root_eq
  intro row hrow hbeside
  obtain ⟨hunder, hsome, hm, -⟩ := hidle.number?_of_mem hf t.root_eq hrow
  obtain ⟨k, hk⟩ := Option.ne_none_iff_exists'.mp hsome
  rw [hk]
  exact h.number?_of_some hf ha (hunder.symm.trans hk) ((hsilenced.beside hbeside).trans hm)

/-! ## The exclusion of a row's site -/

/-- The number of a site leads back to it. -/
theorem Forest.findByUnderline_eq (hf : db.Forest) (hn : db.Numbered cfg) {id : StmtId}
    {st : Statement} (hs : db.stmt? id = some st) (hx : x ∈ db.nodes st.root) {k : UInt32}
    (hk : db.number? x = some k) : db.findByUnderline st.root k = .ok x := by
  obtain ⟨er, hr, -⟩ := hf.root hs
  have hfind : (db.nodes st.root).find?
      (fun id => (db.expr? id).any fun e => e.underline = some k) = some x := by
    refine find?_eq_some_of_unique hx (any_underline_iff.mpr hk) fun y hy hky => ?_
    exact hn.distinct hs hy hx (any_underline_iff.mp hky) hk
  rw [findByUnderline, hr, hf.subtree_eq hr]
  show found _ _ = _
  rw [hfind]
  rfl

/-- In an idle tree, a node can be excluded. -/
theorem Forest.setExclusion_ok (hf : db.Forest) {u : ScopeId} (t : db.Target u x)
    (hcurrent : ∀ v, db.Current cfg v) (alsoLine : Bool) :
    ∃ o db', db.setExclusion cfg u x true alsoLine = .ok (o, db') ∧
      t.Toggled cfg true alsoLine o db' := by
  rcases hf.setExclusion_of_target cfg true alsoLine t with hok | ⟨fault, -, huntoggled⟩
  · exact hok
  exfalso
  have hidle : db.Idle cfg t.st.root := (hcurrent u).settled t.scope_eq t.stmt t.listed t.st t.st_eq
  rcases (huntoggled.exhausted hf t.st_eq t.root_eq t.node_eq t.mem rfl t.scope_eq t.listed
    fun v => (hcurrent v).exact).2 with hcrowded | ⟨marks, counts, marks', db₁, hscored, hcrowded⟩
  · exact hidle.not_crowded hcrowded
  · have hf₁ := hf.congr hscored.bare
    obtain ⟨er, hr, -⟩ := exists_expr?_of_bare hscored.bare t.root_eq
    obtain ⟨ex, he, -⟩ := exists_expr?_of_bare hscored.bare t.node_eq
    refine Served.not_crowded ?_ hcrowded
    exact (hf₁.silenced_setExcluded he).served hf₁ (hscored.idle hf t.root_eq).toServed hr
      (number?_setExcluded db₁ x true)

/-- The exclusion of a row's site covers at least one point. -/
theorem Target.Toggled.combHitDelta_pos {u : ScopeId} {t : db.Target u x} {alsoLine : Bool}
    {o : ExclusionOutcome} (h : t.Toggled cfg true alsoLine o db') (hf : db.Forest)
    (hlt : (db'.treeGaps cfg t.st.root).length < (db.treeGaps cfg t.st.root).length) :
    1 ≤ o.combHitDelta := by
  have hold : (db.treeGaps cfg t.st.root).length + _ = _ := Forest.length_treeGaps t.st.root
  have hnew : (db'.treeGaps cfg t.st.root).length + _ = _ := Forest.length_treeGaps t.st.root
  have hlen : (db'.treePoints cfg t.st.root).length = (db.treePoints cfg t.st.root).length :=
    hf.length_treePoints_congr t.root_eq h.bare
  rw [(h.differences hf).1]
  omega

end Database

namespace Engine

open Database

/-- After a first pass, all scopes are current, and the numbers are as they should be. -/
theorem scoreAll_of_none {db db' : Database} {engine engine' : Engine}
    {stats : List (ScopeId × Statistic)} (hf : db.Forest) (hnone : ∀ x, db.number? x = none)
    (hpass : engine.scoreAll db = .ok (stats, engine', db')) :
    db'.Forest ∧ (∀ u, db'.Current engine.config u) ∧ db'.Numbered engine.config ∧
      db'.Audible := by
  obtain ⟨-, hcurrent, db₁, hcleared, -, hruns⟩ := scoreAll_ok hf hpass
  have hf₁ := hf.congr (bare_eq_of_unscored hcleared.unscored)
  have hnone₁ (x : ExprId) : db₁.number? x = none :=
    (hcleared.number? x).elim (fun hx => hx.trans (hnone x)) id
  refine ⟨hf₁.congr (bare_eq_of_unscored (unscored_of_recalculations hruns)), hcurrent, ?_, ?_⟩
  · exact recalculations_induction hruns hf₁ (fun hf hstep => hstep.numbered hf)
      (numbered_of_none hnone₁)
  · exact recalculations_induction hruns hf₁ (fun hf hstep => hstep.audible hf)
      (audible_of_none hnone₁)

/-- On a consistent database without numbers, every row of the report of a listed statement can be
addressed and excluded after a pass: it has a number, by which its site is found; the exclusion of
the site by that number succeeds, is seen, and covers a point at least; and afterwards the report is
the same, number by number, without the rows whose sites lie below that of the row. -/
theorem exclusion_of_gap {db db' : Database} (hdb : db.check = .ok ())
    (hnone : ∀ x, db.number? x = none) (engine : Engine) {stats : List (ScopeId × Statistic)}
    {engine' : Engine} (hpass : engine.scoreAll db = .ok (stats, engine', db'))
    {u : ScopeId} {scope : Scope} (hu : db'.scope? u = some scope) {id : StmtId}
    (hid : id ∈ scope.statements) {st : Statement} (hs : db'.stmt? id = some st) :
    ∃ rows, db'.statementDetail id engine.config = .ok rows ∧ ∀ row ∈ rows, ∃ n,
      row.underline = some n ∧ db'.findByUnderline st.root n = .ok row.site ∧
      ∃ o db₂, db'.setExclusionByUnderline engine.config u st.root n true = .ok (o, db₂) ∧
        o.shadowed = false ∧ 1 ≤ o.combHitDelta ∧
        ∃ below, db'.subtree row.site = .ok below ∧
          db₂.statementDetail id engine.config =
            .ok (rows.filter fun r => decide (r.site ∉ below)) := by
  obtain ⟨hf, hcurrent, hn, ha⟩ := scoreAll_of_none (forest_of_check hdb) hnone hpass
  obtain ⟨er, hr, -⟩ := hf.root hs
  have hidle : db'.Idle engine.config st.root := (hcurrent u).settled hu id hid st hs
  refine ⟨_, (hcurrent u).statementDetail_eq hf hu hid hs, fun row hrow => ?_⟩
  -- The tree is idle, so that the site of the row has a number and is not muted.
  obtain ⟨hunder, hsome, hm, hx⟩ := hidle.number?_of_mem hf hr hrow
  obtain ⟨n, hk⟩ := Option.ne_none_iff_exists'.mp hsome
  obtain ⟨ex, he⟩ := hf.expr?_of_mem_nodes hr hx
  have hfind := hf.findByUnderline_eq hn hs hx (hunder.symm.trans hk)
  let t : db'.Target u row.site := ⟨scope, id, st, er, ex, hu, hid, hs, hr, he, hx⟩
  obtain ⟨o, db₂, hset, htoggled⟩ := hf.setExclusion_ok t hcurrent false
  have hsilenced := htoggled.silenced hf
  have hgaps : db₂.treeGaps engine.config st.root =
      (db'.treeGaps engine.config st.root).filter fun r => decide (r.site ∉ db'.nodes row.site) :=
    htoggled.treeGaps_eq hf ha hidle
  refine ⟨n, hk, hfind, o, db₂, ?_, ?_, ?_, _, hf.subtree_eq he, ?_⟩
  · rw [setExclusionByUnderline_steps, hf.locate_eq ⟨scope, id, st, er, er, hu, hid, hs, hr, hr,
      hf.self_mem_nodes hr⟩, ok_bind, hfind]
    exact hset
  · obtain ⟨before, after, db₃, -, -, rfl⟩ := htoggled.turned
    rw [hf.muted_eq he, Bool.or_eq_false_iff] at hm
    exact hm.2
  · apply htoggled.combHitDelta_pos hf
    show (db₂.treeGaps engine.config st.root).length <
      (db'.treeGaps engine.config st.root).length
    rw [hgaps]
    refine List.length_filter_lt_length_iff_exists.mpr ⟨row, hrow, ?_⟩
    rw [decide_eq_true_eq]
    exact fun hnot => hnot (hf.self_mem_nodes he)
  · obtain ⟨st₂, hs₂, hbare⟩ := exists_stmt?_of_bare hsilenced.bare hs
    rw [(hf.congr hsilenced.bare).statementDetail_eq hs₂
      (hf.treeScorable_congr hsilenced.bare ((hcurrent u).exact.scorable hu id hid) st₂ hs₂),
      Statement.root_eq_of_bare hbare, hgaps]

theorem exclusion_of_gap_andGate :
    andGate.check = .ok () ∧ (∀ x, andGate.number? x = none) ∧ ∃ stats engine db scope,
      (Engine.new .default).scoreAll andGate = .ok (stats, engine, db) ∧
        db.scope? ⟨0⟩ = some scope ∧ ⟨0⟩ ∈ scope.statements ∧ db.stmt? ⟨0⟩ = some ⟨⟨2⟩, false⟩ ∧
          ∃ rows, db.statementDetail ⟨0⟩ .default = .ok rows ∧ rows.length = 2 ∧
            ∀ row ∈ rows, ∃ n, row.underline = some n ∧
              db.findByUnderline ⟨2⟩ n = .ok row.site ∧
              ∃ o db₂, db.setExclusionByUnderline .default ⟨0⟩ ⟨2⟩ n true = .ok (o, db₂) ∧
                o.shadowed = false ∧ 1 ≤ o.combHitDelta ∧
                db₂.statementDetail ⟨0⟩ .default = .ok [] := by
  have hcheck : andGate.check = .ok () := by decide
  have hrun : ((Engine.new .default).scoreAll andGate).map (fun r =>
      ((r.2.2.scope? ⟨0⟩).map Scope.statements, r.2.2.stmt? ⟨0⟩)) =
        .ok (some [⟨0⟩], some ⟨⟨2⟩, false⟩) := by decide +kernel
  have hreport : ((Engine.new .default).scoreAll andGate).map (fun r =>
      ((r.2.2.subtree ⟨2⟩).toOption, (r.2.2.statementDetail ⟨0⟩ .default).map fun rows =>
        rows.map Row.site)) =
          .ok (some [⟨0⟩, ⟨1⟩, ⟨2⟩], .ok [⟨2⟩, ⟨2⟩]) := by decide +kernel
  refine ⟨hcheck, number?_andGate, ?_⟩
  rcases hpass : (Engine.new .default).scoreAll andGate with refusal | ⟨stats, engine, db⟩
  · rw [hpass] at hrun
    cases hrun
  rw [hpass] at hrun hreport
  obtain ⟨hscope, hs⟩ := Prod.mk.inj (Except.ok.inj hrun)
  obtain ⟨hbelow, hsites⟩ := Prod.mk.inj (Except.ok.inj hreport)
  obtain ⟨scope, hu, hlisted⟩ := Option.map_eq_some_iff.mp hscope
  have hid : ⟨0⟩ ∈ scope.statements := by
    rw [hlisted]
    exact List.mem_cons_self
  obtain ⟨rows, (hrows : db.statementDetail ⟨0⟩ .default = .ok rows), hgaps⟩ :=
    exclusion_of_gap hcheck number?_andGate (.new .default) hpass hu hid hs
  rw [hrows] at hsites
  have hgate : rows.map Row.site = [⟨2⟩, ⟨2⟩] := Except.ok.inj hsites
  have hsite (row : Row) (hrow : row ∈ rows) : row.site = ⟨2⟩ := by
    have hmem : row.site ∈ rows.map Row.site := List.mem_map_of_mem hrow
    rw [hgate] at hmem
    rcases List.mem_pair.mp hmem with h | h <;> exact h
  refine ⟨stats, engine, db, scope, rfl, hu, hid, hs, rows, hrows, ?_, fun row hrow => ?_⟩
  · rw [← List.length_map, hgate]
    rfl
  obtain ⟨n, hk, hfind, o, db₂, hset, hseen, hdelta, below, hsub, hleft⟩ := hgaps row hrow
  rw [hsite row hrow] at hsub
  rw [hsub] at hbelow
  cases hbelow
  refine ⟨n, hk, hfind, o, db₂, hset, hseen, hdelta, hleft.trans (congrArg _ ?_)⟩
  rw [List.filter_eq_nil_iff]
  intro r hr
  rw [hsite r hr]
  decide

end Engine

end LogicCoverage
