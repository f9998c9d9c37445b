import LogicCoverage.Proofs.Consistency
import LogicCoverage.Proofs.Requests

/-!
# What one exclusion covers

An exclusion covers the points below its node that were not shown and that no other exclusion
covers already; lifting it uncovers the same points. The main statement reads the reported
differences, which come from two scores of the whole tree, as this one number.
-/

namespace LogicCoverage.Database

open Relation

variable {db db' : Database} {cfg : ScoringConfig} {x y : ExprId} {ex : Expression}
  {excluded : Bool}

/-! ## The points an exclusion decides -/

/-- On the way from `y`, which counts, to the top of its tree, a node other than `x` is excluded. -/
def mutedBeside (db : Database) (x y : ExprId) : Bool :=
  Checked.getD ((db.ancestors y).map fun above =>
    (y :: above).any fun z => z ≠ x && db.flagged z) false

/-- The point is covered if `x` is excluded, and missing otherwise. -/
def decides (db : Database) (x : ExprId) (p : Point) : Bool :=
  !p.hit && (db.nodes x).contains p.site && !db.mutedBeside x p.site

/-- An exclusion of `x` adds the points it decides to those waived in any case. -/
theorem waived_eq {p : Point} {flag : Bool}
    (h : p.excluded = (flag && (db.nodes x).contains p.site || db.mutedBeside x p.site)) :
    p.waived = ((!p.hit && db.mutedBeside x p.site) || (flag && db.decides x p)) := by
  rw [Point.waived, decides, h]
  cases p.hit <;> cases db.mutedBeside x p.site <;> simp

/-- Counts of what holds in any case, and of what a flag adds to it. -/
theorem countP_or_flag {α : Type} {always added : α → Bool}
    (h : ∀ a, added a = true → always a = false) (flag : Bool) (l : List α) :
    l.countP (fun a => always a || (flag && added a)) =
      l.countP always + if flag then l.countP added else 0 := by
  cases flag with
  | false => simp
  | true =>
    induction l with
    | nil => rfl
    | cons a l ih =>
      simp only [Bool.true_and, if_true, List.countP_cons] at ih ⊢
      rw [ih]
      cases hadded : added a with
      | false => simp only [Bool.or_false, Bool.false_eq_true, if_false]; omega
      | true => simp only [h a hadded, Bool.or_true, Bool.false_eq_true, if_true, if_false]; omega

namespace Forest

variable (hf : db.Forest)

include hf

theorem mutedBeside_iff {ey : Expression} (h : db.expr? y = some ey) :
    db.mutedBeside x y = true ↔
      ∃ z, ReflTransGen db.Under y z ∧ z ≠ x ∧ db.flagged z = true := by
  obtain ⟨above, habove, hmem⟩ := hf.ancestors_spec h
  have hread : db.mutedBeside x y = (y :: above).any fun z => z ≠ x && db.flagged z := by
    rw [mutedBeside, habove]
    rfl
  rw [hread, List.any_eq_true]
  refine exists_congr fun z => and_congr ?_ ?_
  · rw [List.mem_cons, hmem, reflTransGen_iff_eq_or_transGen]
  · rw [Bool.and_eq_true, decide_eq_true_eq]

/-- A node is muted by `x`, if it is below it, or by another node. -/
theorem muted_eq_beside (hx : db.expr? x = some ex) {ey : Expression} (hy : db.expr? y = some ey) :
    db.muted y = (ex.excluded && (db.nodes x).contains y || db.mutedBeside x y) := by
  have hflag : db.flagged x = ex.excluded := by rw [flagged, hx]; rfl
  rw [Bool.eq_iff_iff, hf.muted_iff_flagged, Bool.or_eq_true, Bool.and_eq_true,
    hf.mutedBeside_iff hy, ← hflag, List.contains_iff_mem, hf.mem_nodes_iff hx]
  constructor
  · rintro ⟨z, hz, hzflag⟩
    by_cases hzx : z = x
    · subst hzx
      exact .inl ⟨hzflag, hz⟩
    · exact .inr ⟨z, hz, hzx, hzflag⟩
  · rintro (⟨hxflag, hyx⟩ | ⟨z, hz, -, hzflag⟩)
    · exact ⟨x, hyx, hxflag⟩
    · exact ⟨z, hz, hzflag⟩

/-- What the other nodes mute depends on their exclusions only. -/
theorem mutedBeside_congr (hb : db'.bare = db.bare)
    (hflag : ∀ z, z ≠ x → db'.flagged z = db.flagged z) {ey : Expression}
    (hy : db.expr? y = some ey) : db'.mutedBeside x y = db.mutedBeside x y := by
  obtain ⟨ey', hy', -⟩ := exists_expr?_of_bare hb hy
  rw [Bool.eq_iff_iff, (hf.congr hb).mutedBeside_iff hy', hf.mutedBeside_iff hy, ← under_bare db',
    hb, under_bare]
  refine exists_congr fun z => and_congr_right fun _ => and_congr_right fun hz => ?_
  rw [hflag z hz]

/-- Below an excluded node an exclusion decides nothing. -/
theorem decides_eq_false (hx : db.expr? x = some ex) (howner : db.mutedOwner ex.parent = true)
    (p : Point) : db.decides x p = false := by
  rw [decides, Bool.and_eq_false_iff, Bool.not_eq_false', or_iff_not_imp_left,
    Bool.not_eq_false, Bool.and_eq_true, List.contains_iff_mem]
  rintro ⟨-, hsite⟩
  obtain ⟨es, hes⟩ := hf.expr?_of_mem_nodes hx hsite
  cases hp : ex.parent with
  | detached | stmt => rw [hp] at howner; cases howner
  | expr owner =>
    rw [hp] at howner
    obtain ⟨z, hz, hflag⟩ := hf.muted_iff_flagged.mp howner
    have hxz : TransGen db.Under x z := .head' ⟨ex, hx, hp⟩ hz
    refine (hf.mutedBeside_iff hes).mpr
      ⟨z, ((hf.mem_nodes_iff hx).mp hsite).trans hxz.to_reflTransGen, ?_, hflag⟩
    rintro rfl
    exact hf.acyclic z hxz

end Forest

/-! ## The points of a tree -/

section Tree

variable (hf : db.Forest) {root : ExprId} {er : Expression} (hr : db.expr? root = some er)

include hf hr

theorem Forest.site_of_mem_treePoints {p : Point} (hp : p ∈ db.treePoints cfg root) :
    (∃ es, db.expr? p.site = some es) ∧ p.excluded = db.muted p.site := by
  obtain ⟨n, hn, hp⟩ := mem_treePoints.mp hp
  obtain ⟨en, hen⟩ := hf.expr?_of_mem_nodes hr hn
  refine ⟨?_, hf.excluded_of_mem_points hen hp⟩
  exact hf.expr?_of_mem_nodes hen (hf.mem_nodes_of_mem_sites hen (List.mem_map_of_mem hp))

theorem Forest.treePoints_eq_mute :
    db.treePoints cfg root = (db.bare.treePoints cfg root).map (Point.mute db.muted) := by
  rw [treePoints, treePoints, units, units, List.map_flatten, List.map_map, nodes_bare]
  congr 1
  refine List.map_congr_left fun n hn => ?_
  obtain ⟨en, hen⟩ := hf.expr?_of_mem_nodes hr hn
  exact hf.points_eq_mute hen

/-- Apart from what is excluded, the points stay. -/
theorem Forest.countP_treePoints (hb : db'.bare = db.bare) {test test' : Point → Bool}
    (hmute : ∀ m p, test' (p.mute m) = test' p)
    (h : ∀ p ∈ db.treePoints cfg root, test' p = test p) :
    (db'.treePoints cfg root).countP test' = (db.treePoints cfg root).countP test := by
  obtain ⟨er', hr', -⟩ := exists_expr?_of_bare hb hr
  have hread (d : Database) : ((d.bare.treePoints cfg root).map (Point.mute d.muted)).countP test' =
      (d.bare.treePoints cfg root).countP test' := by
    rw [List.countP_map]
    exact List.countP_congr fun p _ => by rw [Function.comp, hmute]
  rw [(hf.congr hb).treePoints_eq_mute hr', hread db', hb, ← hread db,
    ← hf.treePoints_eq_mute hr]
  exact List.countP_congr fun p hp => by rw [h p hp]

/-- The points covered by exclusions alone are those covered beside `x`, and those `x` decides if it
is excluded. -/
theorem Forest.countP_waived (hx : db.expr? x = some ex) :
    (db.treePoints cfg root).countP Point.waived =
      (db.treePoints cfg root).countP (fun p => !p.hit && db.mutedBeside x p.site) +
        if ex.excluded then (db.treePoints cfg root).countP (db.decides x) else 0 := by
  rw [← countP_or_flag fun p hp => ?_]
  · refine List.countP_congr fun p hp => ?_
    obtain ⟨⟨es, hes⟩, hmuted⟩ := hf.site_of_mem_treePoints hr hp
    rw [waived_eq (hmuted.trans (hf.muted_eq_beside hx hes))]
  · simp only [decides, Bool.and_eq_true, Bool.not_eq_true'] at hp
    rw [hp.2, Bool.and_false]

end Tree

/-- The points covered are those shown, and those covered by an exclusion alone. -/
theorem countP_covered_eq (points : List Point) :
    points.countP Point.covered = points.countP Point.hit + points.countP Point.waived := by
  refine Eq.trans (List.countP_congr fun p _ => ?_) (countP_or_flag (fun p hp => ?_) true points)
  · rw [Point.covered, Point.waived]
    cases p.hit <;> simp
  · rw [Point.waived, Bool.and_eq_true, Bool.not_eq_true'] at hp
    exact hp.2

/-! ## The difference of two scores -/

namespace Turned

variable {stmt : StmtId} {st : Statement} {before after : TreeCounts}
  (h : db.Turned cfg st.root x excluded before after db') (hf : db.Forest)
  (hs : db.stmt? stmt = some st)

include h

/-- Only the exclusion of the node is set. -/
theorem flagged (hx : db.expr? x = some ex) (z : ExprId) :
    db'.flagged z = if z = x then excluded else db.flagged z := by
  obtain ⟨db₁, m₁, m₂, m₃, m₄, hbefore, hafter⟩ := h
  obtain ⟨e₁, he₁, -⟩ := exists_expr?_of_bare hbefore.bare hx
  rw [flagged_eq_of_unscored hafter.unscored, flagged_setExcluded he₁,
    flagged_eq_of_unscored hbefore.unscored]

include hf hs

/-- What is observed stays. -/
theorem hit_sub : (after.hit.toNat : Int) - before.hit.toNat =
    after.excluded.toNat - before.excluded.toNat := by
  obtain ⟨hbefore, hafter⟩ := h.counts hf hs
  obtain ⟨er, hr, -⟩ := hf.root hs
  have hhit : (db'.treePoints cfg st.root).countP Point.hit =
      (db.treePoints cfg st.root).countP Point.hit :=
    hf.countP_treePoints hr h.bare (fun _ _ => rfl) fun _ _ => rfl
  rw [hbefore.hit, hafter.hit, hbefore.excluded, hafter.excluded, countP_covered_eq,
    countP_covered_eq, hhit]
  omega

/-- The points that the node decides come to be waived, or cease to be. -/
theorem excluded_sub (hx : db.expr? x = some ex) :
    (after.excluded.toNat : Int) - before.excluded.toNat =
      (if excluded then ((db.treePoints cfg st.root).countP (db.decides x) : Int) else 0) -
        if ex.excluded then ((db.treePoints cfg st.root).countP (db.decides x) : Int) else 0 := by
  obtain ⟨hbefore, hafter⟩ := h.counts hf hs
  obtain ⟨er, hr, -⟩ := hf.root hs
  obtain ⟨er', hr', -⟩ := exists_expr?_of_bare h.bare hr
  obtain ⟨ex', hx', -⟩ := exists_expr?_of_bare h.bare hx
  have hflag' : ex'.excluded = excluded := by
    have hflag := h.flagged hx x
    rwa [if_pos rfl, Database.flagged, hx'] at hflag
  have hbeside {p : Point} (hp : p ∈ db.treePoints cfg st.root) :
      db'.mutedBeside x p.site = db.mutedBeside x p.site := by
    obtain ⟨⟨es, hes⟩, -⟩ := hf.site_of_mem_treePoints hr hp
    exact hf.mutedBeside_congr h.bare (fun z hz => (h.flagged hx z).trans (if_neg hz)) hes
  have halways : (db'.treePoints cfg st.root).countP (fun p => !p.hit && db'.mutedBeside x p.site) =
      (db.treePoints cfg st.root).countP (fun p => !p.hit && db.mutedBeside x p.site) :=
    hf.countP_treePoints hr h.bare (fun _ _ => rfl) fun p hp => by rw [hbeside hp]
  have hdecided : (db'.treePoints cfg st.root).countP (db'.decides x) =
      (db.treePoints cfg st.root).countP (db.decides x) :=
    hf.countP_treePoints hr h.bare (fun _ _ => rfl) fun p hp => by
      rw [decides, decides, hbeside hp, nodes_congr h.bare]
  rw [hbefore.excluded, hafter.excluded, (hf.congr h.bare).countP_waived hr' hx',
    hf.countP_waived hr hx, halways, hdecided, hflag']
  cases excluded <;> cases ex.excluded <;> simp

end Turned

/-! ## The toggle of a target -/

/-- What is covered less what is covered by an exclusion alone moves in no scope. -/
theorem Target.Toggled.observed_eq {u v : ScopeId} {t : db.Target u x} {alsoLine : Bool}
    {o : ExclusionOutcome} (h : t.Toggled cfg excluded alsoLine o db') (hf : db.Forest)
    {before after : Scope} (hbefore : db.scope? v = some before) (hafter : db'.scope? v = some after) :
    (after.stat.combHit.toNat : Int) - after.stat.combExcluded.toNat =
      before.stat.combHit.toNat - before.stat.combExcluded.toNat := by
  obtain ⟨scope, hv, -, hmoved, hkept⟩ := Database.Toggled.scope_cases h hafter
  cases hbefore.symm.trans hv
  by_cases hid : t.stmt ∈ before.statements
  · obtain ⟨b, a, db₁, hturned, -, rfl⟩ := h.turned
    have hhit := hmoved hid .combHit
    have hexcluded := hmoved hid .combExcluded
    have hsub := hturned.hit_sub hf t.st_eq
    simp only [Statistic.tally, ExclusionOutcome.delta, outcomeOf] at hhit hexcluded
    omega
  · rw [hkept hid]

/-- On a consistent database, an exclusion that is carried out covers the points that its node
decides, and lifting it uncovers them: both differences it reports are their number, with the sign of
the change, and zero if nothing changes. There are as many points as before. Where a node above is
excluded, there are no such points. In no scope do the observed points change, which are those
covered less those covered by an exclusion alone. -/
theorem setExclusion_differences (hdb : db.check = .ok ()) {u : ScopeId} {alsoLine : Bool}
    {o : ExclusionOutcome} (h : db.setExclusion cfg u x excluded alsoLine = .ok (o, db')) :
    ∃ scope st node nodes points points', ∃ decided : Nat,
      db.scope? u = some scope ∧ o.stmt ∈ scope.statements ∧ db.stmt? o.stmt = some st ∧
      db.expr? x = some node ∧ db.subtree st.root = .ok nodes ∧ x ∈ nodes ∧
      nodes.mapM (fun n => db.scoredPoints n cfg) = .ok points ∧
      nodes.mapM (fun n => db'.scoredPoints n cfg) = .ok points' ∧
      (points'.map fun p => (p.getD []).length).sum = (points.map fun p => (p.getD []).length).sum ∧
      decided = (points.map fun p => (p.getD []).countP (db.decides x)).sum ∧
      o.combHitDelta =
        (if node.excluded = excluded then 0 else if excluded then (decided : Int) else -decided) ∧
      o.combExcludedDelta = o.combHitDelta ∧
      (o.shadowed = true → decided = 0) ∧
      ∀ v before after, db.scope? v = some before → db'.scope? v = some after →
        (after.stat.combHit.toNat : Int) - after.stat.combExcluded.toNat =
          before.stat.combHit.toNat - before.stat.combExcluded.toNat := by
  have hf := forest_of_check hdb
  rcases hf.setExclusion_cases cfg excluded alsoLine u x with
    ⟨error, herr⟩ | ⟨t, ⟨o', db'', hok, ht⟩ | ⟨fault, herr, -⟩⟩
  · cases h.symm.trans herr
  swap
  · cases h.symm.trans herr
  cases h.symm.trans hok
  obtain ⟨before, after, db₁, hturned, -, ho⟩ := ht.turned
  have hhit := hturned.hit_sub hf t.st_eq
  have hexcluded := hturned.excluded_sub hf t.st_eq t.node_eq
  -- Both listings of points are over the nodes of the same tree.
  obtain ⟨dbₛ, m₁, m₂, m₃, m₄, hscored, -⟩ := hturned
  obtain ⟨points, hpoints, hunits⟩ := mapM_scoredPoints hscored.scorable
  have hscorable' : ∀ n ∈ db.nodes t.st.root, db'.Scorable cfg n := fun n hn => by
    obtain ⟨en, hen⟩ := hf.expr?_of_mem_nodes t.root_eq hn
    exact (hf.scorable_congr hen ht.bare).mpr (hscored.scorable n hn)
  obtain ⟨points', hpoints', hunits'⟩ := mapM_scoredPoints hscorable'
  have hsum (l : List (Option (List Point))) (f : List Point → Nat) :
      (l.map fun p => f (p.getD [])).sum = ((l.map (·.getD [])).map f).sum := by
    rw [List.map_map]
    rfl
  have hdecided : (points.map fun p => (p.getD []).countP (db.decides x)).sum =
      (db.treePoints cfg t.st.root).countP (db.decides x) := by
    rw [hsum, hunits, treePoints, units, List.countP_flatten]
  refine ⟨t.scope, t.st, t.node, db.nodes t.st.root, points, points', _, t.scope_eq, ?_, ?_,
    t.node_eq, hf.subtree_eq t.root_eq, t.mem, hpoints, hpoints', ?_, rfl, ?_, ?_, ?_,
    fun v before after hbefore hafter => ht.observed_eq hf hbefore hafter⟩
  · rw [ho]
    exact t.listed
  · rw [ho]
    exact t.st_eq
  · have hlen : (db'.treePoints cfg t.st.root).length = (db.treePoints cfg t.st.root).length :=
      hf.length_treePoints_congr t.root_eq ht.bare
    rw [treePoints, treePoints, units, units, List.length_flatten, List.length_flatten,
      nodes_congr ht.bare] at hlen
    rw [hsum, hsum, hunits, hunits', hlen]
  · rw [hdecided, ho]
    show (after.hit.toNat : Int) - before.hit.toNat = _
    rw [hhit, hexcluded]
    cases excluded <;> cases t.node.excluded <;> simp
  · rw [ho]
    exact hhit.symm
  · intro hshadowed
    rw [ho] at hshadowed
    rw [hdecided, List.countP_eq_zero]
    intro p _
    rw [hf.decides_eq_false t.node_eq hshadowed]
    exact Bool.false_ne_true

theorem setExclusion_differences_andGate :
    andGate.check = .ok () ∧ ∃ o db, andGate.setExclusion .default ⟨0⟩ ⟨2⟩ true false = .ok (o, db) ∧
      o.combHitDelta = 2 ∧ o.combExcludedDelta = 2 ∧ ∀ after, db.scope? ⟨0⟩ = some after →
        (after.stat.combHit.toNat : Int) - after.stat.combExcluded.toNat = 0 := by
  have hcheck : andGate.check = .ok () := by decide
  have hrun : (andGate.setExclusion .default ⟨0⟩ ⟨2⟩ true false).map (·.1.combHitDelta) = .ok 2 := by
    decide +kernel
  rcases h : andGate.setExclusion .default ⟨0⟩ ⟨2⟩ true false with refusal | ⟨o, db⟩
  · rw [h] at hrun
    cases hrun
  rw [h] at hrun
  have hhit : o.combHitDelta = 2 := Except.ok.inj hrun
  obtain ⟨scope, st, node, nodes, points, points', decided, -, -, -, -, -, -, -, -, -, -, -,
    hexcluded, -, hobserved⟩ := setExclusion_differences hcheck h
  refine ⟨hcheck, o, db, rfl, hhit, hexcluded.trans hhit, fun after hafter => ?_⟩
  exact hobserved ⟨0⟩ ⟨"top", .moduleScope, [⟨0⟩], [], .zero⟩ after rfl hafter

end LogicCoverage.Database
