import LogicCoverage.Proofs.Effect
import LogicCoverage.Proofs.Passes

/-!
# Passes that change nothing

In an idle tree there is no number to give and none to take, so that scoring it once more returns
the very same database. A tree that was scored is idle, and can be scored again: it is still. Hence a
pass over current scopes is the identity, and so is an exclusion that is set a second time.
-/

namespace LogicCoverage

open Relation Finset

/-- A loop that no step gets away from its start. -/
theorem foldlM_eq_self {ε σ α : Type} {step : σ → α → Except ε σ} {s : σ} {l : List α}
    (h : ∀ a ∈ l, step s a = .ok s) : l.foldlM step s = .ok s := by
  induction l with
  | nil => rfl
  | cons a l ih =>
    rw [List.forall_mem_cons] at h
    rw [List.foldlM_cons, h.1]
    exact ih h.2

/-- Two changes of one entry are one. -/
theorem modify_modify {α : Type} (xs : Array α) (i : Nat) (change change' : α → α) :
    (xs.modify i change).modify i change' = xs.modify i fun a => change' (change a) := by
  apply Array.ext_getElem?
  intro j
  simp only [Array.getElem?_modify]
  split
  · cases xs[j]? <;> rfl
  · rfl

/-- A change that leaves the entry as it is. -/
theorem modify_eq_self {α : Type} {xs : Array α} {i : Nat} {change : α → α}
    (h : ∀ a, xs[i]? = some a → change a = a) : xs.modify i change = xs := by
  apply Array.ext_getElem?
  intro j
  rw [Array.getElem?_modify]
  split
  · rename_i hij
    subst hij
    cases hx : xs[i]? with
    | none => rfl
    | some a => exact congrArg some (h a hx)
  · rfl

namespace Database

variable {db db' : Database}

/-- To give a node the number that it has changes nothing. -/
theorem setUnderline_eq_self {x : ExprId} {number : Option UInt32} (h : db.number? x = number) :
    db.setUnderline x number = db := by
  have hexprs : db.exprs.modify x.index.toNat (fun e => { e with underline := number }) =
      db.exprs := by
    refine modify_eq_self fun e he => ?_
    have hnumber : db.number? x = e.underline := by
      rw [number?, expr?, he]
      rfl
    rw [← h, hnumber]
  rw [setUnderline, modifyExpr, hexprs]

/-- To give a node the flag that it has changes nothing. -/
theorem setExcluded_eq_self {x : ExprId} {e : Expression} (h : db.expr? x = some e) :
    db.setExcluded x e.excluded = db := by
  have hexprs : db.exprs.modify x.index.toNat (fun e' => { e' with excluded := e.excluded }) =
      db.exprs := by
    refine modify_eq_self fun e' he' => ?_
    cases h.symm.trans he'
    rfl
  rw [setExcluded, modifyExpr, hexprs]

/-- To give a scope the statistic that it has changes nothing. -/
theorem setStat_eq_self {u : ScopeId} {scope : Scope} (h : db.scope? u = some scope) :
    db.setStat u scope.stat = db := by
  have hscopes : db.scopes.modify u.index.toNat (fun s => { s with stat := scope.stat }) =
      db.scopes := by
    refine modify_eq_self fun scope' hscope' => ?_
    cases h.symm.trans hscope'
    rfl
  rw [setStat, modifyScope, hscopes]

end Database

/-! ## One tree -/

namespace Underlining

variable {u : Underlining} {points : List Point}

/-- A visit changes nothing if there is no number to give or to take. -/
theorem visit_eq_self {p : Point} {e : Expression} {missing : Bool}
    (h : u.db.expr? p.site = some e) (hmuted : p.excluded = true → u.db.number? p.site = none)
    (hserved : missing = true → p.excluded = false → u.db.number? p.site ≠ none) :
    visit missing u p = .ok u := by
  have hnumber : u.db.number? p.site = e.underline := by
    rw [Database.number?, h]
    rfl
  cases hp : p.excluded with
  | true =>
    rw [visit_muted h hp, set, Database.setUnderline_eq_self (hmuted hp)]
  | false =>
    exact visit_closed h hp fun hmissing => hnumber ▸ hserved hmissing hp

/-- A unit of which the muted sites have no number, and of which the others have one if anything is
missing, is left as it is. -/
theorem unit_eq_self (hex : ∀ p ∈ points, ∃ e, u.db.expr? p.site = some e)
    (hmuted : ∀ p ∈ points, p.excluded = true → u.db.number? p.site = none)
    (hserved : points.any Point.missing = true →
      ∀ p ∈ points, p.excluded = false → u.db.number? p.site ≠ none) : unit u points = .ok u := by
  refine foldlM_eq_self fun p hp => ?_
  have hmem := mem_of_mem_firstPerSite hp
  obtain ⟨e, he⟩ := hex p hmem
  exact visit_eq_self he (hmuted p hmem) fun hmissing => hserved hmissing p hmem

end Underlining

namespace Database

variable {db db' : Database} {cfg : ScoringConfig} {id : StmtId} {st : Statement}
  {marks marks' : PassMarks} {counts : TreeCounts}

/-- In a tree that is idle, no unit changes anything. -/
theorem Idle.foldlM_unit_eq_self {root : ExprId} {er : Expression} (hidle : db.Idle cfg root)
    (hf : db.Forest) (hr : db.expr? root = some er) (next : UInt32) :
    (db.units cfg root).foldlM Underlining.unit ⟨db, next⟩ = .ok ⟨db, next⟩ := by
  refine foldlM_eq_self fun points hpoints => ?_
  obtain ⟨n, hn, rfl⟩ := List.mem_map.mp hpoints
  obtain ⟨en, hen⟩ := hf.expr?_of_mem_nodes hr hn
  have hsite {p : Point} (hp : p ∈ db.points cfg n) : p.site ∈ db.sites cfg n :=
    List.mem_map_of_mem hp
  refine Underlining.unit_eq_self (fun p hp => ?_) (fun p hp hexcluded => ?_)
    fun hmissing p hp hexcluded hnone => ?_
  · exact hf.expr?_of_mem_nodes hr (hf.site_mem_nodes hr hn (hsite hp))
  · exact hidle.hushed hn (hsite hp) ((hf.excluded_of_mem_points hen hp).symm.trans hexcluded)
  · have hawait : p.site ∈ db.awaiting cfg root := (mem_awaiting hf hr).mpr
      ⟨(hf.excluded_of_mem_points hen hp).symm.trans hexcluded, hnone, n, hn,
        List.any_eq_true.mp hmissing, hsite hp⟩
    rw [hidle.awaiting] at hawait
    exact List.not_mem_nil hawait

/-- Scoring an idle tree changes nothing. -/
theorem Idle.computeTree_eq_self (hidle : db.Idle cfg st.root) (hf : db.Forest)
    (hs : db.stmt? id = some st) (hm : ∀ n ∈ db.nodes st.root, marks.counted n = false)
    (h : db.computeTree st.root cfg marks = .ok (counts, marks', db')) : db' = db := by
  obtain ⟨er, her, -⟩ := hf.root hs
  obtain ⟨next, u', -, hunits, rfl⟩ := hf.units_of_computeTree hs hm h
  have hend := Except.ok.inj ((hidle.foldlM_unit_eq_self hf her next).symm.trans hunits)
  rw [← hend]

/-- The tree is idle and can be scored, and a counter holds its points. -/
structure Still (db : Database) (cfg : ScoringConfig) (root : ExprId) : Prop
    extends db.Idle cfg root where
  scorable : ∀ n ∈ db.nodes root, db.Scorable cfg n
  fits : (db.treePoints cfg root).length < UInt32.size

/-- Scoring a still tree succeeds and changes nothing. -/
theorem Still.computeTree_eq (h : db.Still cfg st.root) (hf : db.Forest) (hs : db.stmt? id = some st)
    (hm : ∀ n ∈ db.nodes st.root, marks.counted n = false) :
    ∃ counts marks', db.computeTree st.root cfg marks = .ok (counts, marks', db) ∧
      counts.Counts (db.treePoints cfg st.root) := by
  rcases hf.computeTree_spec hs hm with ⟨counts, marks', db', hcompute, hscored⟩ | ⟨_, -, hfail⟩
  · rw [h.computeTree_eq_self hf hs hm hcompute] at hcompute
    exact ⟨counts, marks', hcompute, hscored.counts⟩
  · exact absurd (hfail.exhausted h.scorable h.fits).2 h.not_crowded

/-- A still tree stays so when what is bare stays and the tree stays idle. -/
theorem Still.congr {root : ExprId} {er : Expression} (h : db.Still cfg root) (hf : db.Forest)
    (hr : db.expr? root = some er) (hb : db'.bare = db.bare) (hidle : db'.Idle cfg root) :
    db'.Still cfg root where
  toIdle := hidle
  scorable := hf.scorable_nodes_congr hr hb h.scorable
  fits := by
    rw [hf.length_treePoints_congr hr hb]
    exact h.fits

/-- A tree that was scored is still. -/
theorem Scored.still {root : ExprId} {er : Expression}
    (h : db.Scored cfg root marks counts marks' db') (hf : db.Forest)
    (hr : db.expr? root = some er) : db'.Still cfg root where
  toIdle := h.idle hf hr
  scorable := hf.scorable_nodes_congr hr h.bare h.scorable
  fits := by
    rw [hf.length_treePoints_congr hr h.bare, ← h.counts.total]
    exact counts.total.toNat_lt_size

/-- After an exclusion, the tree can be scored again without a change. -/
theorem Turned.still {x : ExprId} {er : Expression} {excluded : Bool} {before after : TreeCounts}
    (h : db.Turned cfg st.root x excluded before after db') (hf : db.Forest)
    (hr : db.expr? st.root = some er) : db'.Still cfg st.root := by
  obtain ⟨db₁, m₁, m₂, m₃, m₄, hbefore, hafter⟩ := h
  have hb := hbefore.bare_setExcluded x excluded
  obtain ⟨er', her', -⟩ := exists_expr?_of_bare hb hr
  exact hafter.still (hf.congr hb) her'

/-- After an exclusion, the tree is still. -/
theorem Target.Toggled.still {u : ScopeId} {x : ExprId} {t : db.Target u x}
    {excluded alsoLine : Bool} {o : ExclusionOutcome} (h : t.Toggled cfg excluded alsoLine o db')
    (hf : db.Forest) : db'.Still cfg t.st.root := by
  obtain ⟨before, after, db₁, hturned, hnodes, -⟩ := h.turned
  obtain ⟨er₁, her₁, -⟩ := exists_expr?_of_bare hturned.bare t.root_eq
  have hf₁ := hf.congr hturned.bare
  have hstill := hturned.still hf t.root_eq
  exact hstill.congr hf₁ her₁ hnodes.bare (hnodes.idle hf₁ her₁ hstill.toIdle)

end Database

/-! ## One scope -/

namespace Tallied

variable {db : Database} {cfg : ScoringConfig} {done : Finset StmtId} {s s' : ScopeScore}
  {id : StmtId} {st : Statement} (h : Tallied db cfg done s) (hf : db.Forest) (hdb : s.db = db)

include h hf hdb

/-- To score a settled statement changes nothing. -/
theorem db_eq_of_step (hs : db.stmt? id = some st) (hset : db.Settled cfg id)
    (hstep : ScopeScore.step cfg s id = .ok s') : s'.db = db := by
  rw [h.step_eq hf hs] at hstep
  split at hstep <;> rename_i hid
  · cases hstep
    exact hdb
  · obtain ⟨⟨counts, marks, db₁⟩, hcompute, hstep⟩ := bind_eq_ok_iff.mp hstep
    obtain ⟨comb, -, hstep⟩ := bind_eq_ok_iff.mp hstep
    obtain ⟨root, -, hstep⟩ := bind_eq_ok_iff.mp hstep
    obtain ⟨stat, -, hstep⟩ := bind_eq_ok_iff.mp hstep
    cases hstep
    rw [hdb] at hcompute
    exact (hset st hs).computeTree_eq_self hf hs (h.uncounted hf hs hid) hcompute

/-- Going through settled trees changes nothing. -/
theorem db_eq_of_foldlM {stmts : List StmtId} (hex : ∀ id ∈ stmts, ∃ st, db.stmt? id = some st)
    (hset : ∀ id ∈ stmts, db.Settled cfg id)
    (hfold : stmts.foldlM (ScopeScore.step cfg) s = .ok s') : s'.db = db :=
  (h.foldlM_induction hex hf (P := fun _ s => s.db = db) hdb
    (fun h hdb hid hs hstep => h.db_eq_of_step hf hdb hs (hset _ hid) hstep) hfold).2

end Tallied

namespace Database

variable {db : Database} {cfg : ScoringConfig} {u : ScopeId} {scope : Scope} {id : StmtId}
  {st : Statement} {marks : PassMarks}

namespace Current

variable (h : db.Current cfg u) (hf : db.Forest) (hu : db.scope? u = some scope)

include h hf hu

/-- Recalculating a current scope changes nothing. -/
theorem recalcScope_eq_self : db.recalcScope u cfg = .ok (scope.stat, db) := by
  obtain ⟨db', hrecalc⟩ := h.recalcScope_eq hf hu
  obtain ⟨s, hfold, hstat, rfl⟩ := (recalcScope_ok_iff hu).mp hrecalc
  have hdb := (Tallied.start db cfg).db_eq_of_foldlM hf rfl (fun id hid => hf.statement hu hid)
    (h.settled hu) hfold
  rw [hrecalc, hdb, setStat_eq_self hu]

end Current

/-! ## A pass -/

/-- The cached statistic of a scope, by its id. -/
def cachedStat? (db : Database) (u : ScopeId) : Option (ScopeId × Statistic) :=
  (db.scope? u).map fun scope => (u, scope.stat)

/-- The cached statistics of all scopes. -/
def cachedStats (db : Database) : List (ScopeId × Statistic) := db.scopeIds.filterMap db.cachedStat?

end Database

namespace Engine

open Database

variable {db : Database} {cfg : ScoringConfig} (hf : db.Forest)

include hf

/-- A pass over scopes that are current lists their statistics, and changes nothing. -/
theorem foldlM_scoreScope_eq_self {ids : List ScopeId}
    (hex : ∀ u ∈ ids, ∃ scope, db.scope? u = some scope) (hcurrent : ∀ u, db.Current cfg u)
    (stats : List (ScopeId × Statistic)) :
    ids.foldlM (scoreScope cfg) (stats, db) =
      .ok (stats ++ ids.filterMap db.cachedStat?, db) := by
  induction ids generalizing stats with
  | nil => exact congrArg (fun stats => Except.ok (stats, db)) (List.append_nil stats).symm
  | cons u ids ih =>
    rw [List.forall_mem_cons] at hex
    obtain ⟨⟨scope, hu⟩, hex⟩ := hex
    rw [List.foldlM_cons, scoreScope, (hcurrent u).recalcScope_eq_self hf hu, ok_bind]
    show ids.foldlM (scoreScope cfg) (stats ++ [(u, scope.stat)], db) = _
    have hcached : db.cachedStat? u = some (u, scope.stat) := by rw [cachedStat?, hu]; rfl
    rw [ih hex, List.filterMap_cons_some hcached, List.append_assoc]
    rfl

/-- A pass over current scopes returns the cached statistics and changes nothing. -/
theorem scoreAll_eq_self {engine : Engine} (hfresh : engine.isOutdated = false)
    (hcurrent : ∀ u, db.Current engine.config u) :
    engine.scoreAll db =
      .ok (db.cachedStats, { engine with scoredWith := some engine.config }, db) := by
  rw [scoreAll_of_not_isOutdated hfresh,
    foldlM_scoreScope_eq_self hf (fun u hu => exists_scope?_of_mem hu) hcurrent]
  rfl

end Engine

namespace Database

/-! ## An exclusion that is set already -/

variable {db db' : Database} {cfg : ScoringConfig} {u : ScopeId} {x : ExprId}
  {excluded alsoLine : Bool}

/-- To move a statistic by nothing changes nothing. -/
theorem shiftScope_eq_self {o : ExclusionOutcome} (hdelta : ∀ col, o.delta col = 0)
    {scope : Scope} (hu : db.scope? u = some scope) : Exclusion.shiftScope o db u = .ok db := by
  have hshift (col : Column) (a : UInt32) (name : CounterName) :
      Exclusion.shift a (o.delta col) name u = .ok a := by
    rw [Exclusion.shift_eq_ok_iff, hdelta, Int.add_zero]
  have hstat : Exclusion.shiftStat o u scope.stat = .ok scope.stat := by
    simp only [Exclusion.shiftStat, show o.combHitDelta = o.delta .combHit from rfl,
      show o.combExcludedDelta = o.delta .combExcluded from rfl,
      show Exclusion.shift scope.stat.lineHit o.lineHitDelta .lineHit u =
        Exclusion.shift scope.stat.lineHit (o.delta .lineHit) .lineHit u from rfl,
      show Exclusion.shift scope.stat.lineExcluded o.lineHitDelta .lineExcluded u =
        Exclusion.shift scope.stat.lineExcluded (o.delta .lineExcluded) .lineExcluded u from rfl,
      hshift]
    rfl
  rw [Exclusion.shiftScope, db.scope_eq_ok_iff.mpr hu, ok_bind, hstat]
  exact congrArg Except.ok (setStat_eq_self hu)

/-- What is reported of an exclusion that was set already. -/
def unchangedOutcome (db : Database) (t : db.Target u x) : ExclusionOutcome where
  stmt := t.stmt
  combHitDelta := 0
  combExcludedDelta := 0
  lineHitDelta := 0
  shadowed := db.mutedOwner t.node.parent
  scopes := db.scopesListing t.stmt

/-- Where the tree is still, an exclusion that is set already, with a line that does not move,
changes nothing. -/
theorem Target.setExclusion_eq_self (t : db.Target u x) (hf : db.Forest)
    (hstill : db.Still cfg t.st.root)
    (hline : movesLine t.st t.root x t.node.excluded alsoLine = false) :
    db.setExclusion cfg u x t.node.excluded alsoLine = .ok (db.unchangedOutcome t, db) := by
  have hcompute (marks : PassMarks) (hm : ∀ n ∈ db.nodes t.st.root, marks.counted n = false) :=
    hstill.computeTree_eq hf t.st_eq hm
  obtain ⟨before, marks, hbefore, hcounts⟩ :=
    hcompute (.new db.exprs.size) fun n _ => PassMarks.counted_new _ n
  obtain ⟨after, marks', hafter, hcounts'⟩ :=
    hcompute marks.beginPass fun n _ => PassMarks.counted_beginPass marks n
  -- both scorings count the points of one tree, so there is nothing to report
  cases hcounts.unique hcounts'
  have hflag : (db.modifyExpr x fun e => { e with excluded := t.node.excluded }) = db :=
    setExcluded_eq_self t.node_eq
  have hdelta (col : Column) : (db.unchangedOutcome t).delta col = 0 := by cases col <;> rfl
  have hshift : (db.scopesListing t.stmt).foldlM (Exclusion.shiftScope (db.unchangedOutcome t)) db =
      .ok db := by
    refine foldlM_eq_self fun v hv => ?_
    obtain ⟨scope, hscope, -⟩ := mem_scopesListing.mp hv
    exact shiftScope_eq_self hdelta hscope
  have houtcome : db.outcomeOf t.stmt t.node before before false t.node.excluded =
      db.unchangedOutcome t := by
    simp [outcomeOf, unchangedOutcome]
  have htoggle : db.toggle cfg t.stmt x t.node.excluded alsoLine =
      .ok (db.unchangedOutcome t, db) := by
    rw [toggle_steps, db.stmt_eq_ok_iff.mpr t.st_eq, ok_bind, hf.excludedAbove_eq t.node_eq, ok_bind,
      hbefore, ok_bind]
    dsimp only
    rw [hflag, hafter, ok_bind]
    dsimp only
    rw [Exclusion.checkTotals, if_pos rfl, ok_bind, db.expr_eq_ok_iff.mpr t.root_eq, ok_bind,
      hline]
    show ((db.scopesListing t.stmt).foldlM (Exclusion.shiftScope
      (db.outcomeOf t.stmt t.node before before false t.node.excluded)) db >>= _) = _
    rw [houtcome, hshift, ok_bind]
    exact congrArg (fun o => Except.ok (o, db)) houtcome
  rw [setExclusion_steps, hf.locate_eq t, ok_bind, htoggle]
  rfl

/-- A line that has moved does not move again. -/
theorem movesLine_again (st : Statement) (root : Expression) (x : ExprId)
    (excluded alsoLine : Bool) :
    movesLine { st with lineExcluded := if movesLine st root x excluded alsoLine then excluded
        else st.lineExcluded } root x excluded alsoLine = false := by
  cases hmoves : movesLine st root x excluded alsoLine with
  | true => simp [movesLine]
  | false => exact hmoves

namespace Target.Toggled

variable {t : db.Target u x} {o : ExclusionOutcome} (h : t.Toggled cfg excluded alsoLine o db')
  (hf : db.Forest)

include h

/-- What is reported, apart from the differences, was there before. -/
theorem outcome_eq : o = { db.unchangedOutcome t with
    combHitDelta := o.combHitDelta
    combExcludedDelta := o.combExcludedDelta
    lineHitDelta := o.lineHitDelta } := by
  obtain ⟨before, after, db₁, -, -, rfl⟩ := h.turned
  rfl

include hf

/-- What is reported the second time is what was reported the first time, but that nothing moves. -/
theorem unchangedOutcome_eq (t' : db'.Target u x) : db'.unchangedOutcome t' =
    { o with combHitDelta := 0, combExcludedDelta := 0, lineHitDelta := 0 } := by
  have hsame := t.same h.bare hf t'
  have hshadowed : db'.mutedOwner t'.node.parent = db.mutedOwner t.node.parent := by
    have hparent : t'.node.bare.parent = t.node.bare.parent := by rw [hsame.node]
    rw [← h.mutedOwner_eq hf]
    exact congrArg db'.mutedOwner hparent
  have hscopes : db'.scopesListing t.stmt = db.scopesListing t.stmt := by
    rw [← scopesListing_bare, h.bare, scopesListing_bare]
  rw [h.outcome_eq, unchangedOutcome, hsame.stmt, hshadowed, hscopes]
  rfl

/-- An exclusion that was carried out can be repeated, which changes nothing. -/
theorem setExclusion_again : db'.setExclusion cfg u x excluded alsoLine =
    .ok ({ o with combHitDelta := 0, combExcludedDelta := 0, lineHitDelta := 0 }, db') := by
  obtain ⟨t'⟩ := t.exists_of_bare h.bare
  obtain ⟨hflag, hst⟩ := h.after hf t'
  have hline : movesLine t'.st t'.root x t'.node.excluded alsoLine = false := by
    rw [hflag, hst, ← movesLine_bare, (t.same h.bare hf t').root, movesLine_bare]
    exact movesLine_again t.st t.root x excluded alsoLine
  have hroot : t'.st.root = t.st.root := Statement.root_eq_of_bare (t.same h.bare hf t').st
  have hagain := t'.setExclusion_eq_self (hf.congr h.bare) (hroot ▸ h.still hf) hline
  rwa [hflag, h.unchangedOutcome_eq hf] at hagain

end Target.Toggled

end Database

end LogicCoverage
