import LogicCoverage.Proofs.Gaps
import LogicCoverage.Proofs.Runs

/-!
# Underline ids as addresses

A report names a gap by the number of its site. On a database that brought no numbers along, the
numbers within one statement's tree are different at all times, only sites that are not muted have
one, and a node keeps its number until it is muted. After a pass every row has a number.
-/

namespace LogicCoverage

namespace Database

variable {db : Database} {cfg : ScoringConfig}

/-- Without numbers, nothing has to be known of them. -/
theorem numbered_of_none (h : ∀ x, db.number? x = none) : db.Numbered cfg where
  distinct {stmt st x y k} _ _ _ hk _ := by cases (h x).symm.trans hk
  pos {x k} hk := by cases (h x).symm.trans hk
  site {x k} hk := by cases (h x).symm.trans hk

/-- Where there are no numbers, no muted node has one. -/
theorem audible_of_none (h : ∀ x, db.number? x = none) : db.Audible := by
  intro x k hk
  cases (h x).symm.trans hk

/-- Without a number in the table of nodes, no node has one. -/
theorem number?_eq_none (h : ∀ e ∈ db.exprs, e.underline = none) (x : ExprId) :
    db.number? x = none := by
  rw [number?, Option.bind_eq_none_iff]
  exact fun e he => h e (Array.mem_of_getElem? he)

theorem number?_andGate (x : ExprId) : andGate.number? x = none := number?_eq_none (by decide) x

/-- Only existing nodes have numbers. -/
theorem exists_expr?_of_number? {x : ExprId} {k : UInt32} (h : db.number? x = some k) :
    ∃ e, db.expr? x = some e ∧ e.underline = some k :=
  Option.bind_eq_some_iff.mp h

/-- Each row of an idle tree has the number of its site, which is not muted and in the tree. -/
theorem Idle.number?_of_mem {root : ExprId} {er : Expression} (hidle : db.Idle cfg root)
    (hf : db.Forest) (hr : db.expr? root = some er) {row : Row}
    (hrow : row ∈ db.treeGaps cfg root) :
    row.underline = db.number? row.site ∧ row.underline ≠ none ∧ db.muted row.site = false ∧
      row.site ∈ db.nodes root := by
  obtain ⟨n, hn, p, hp, hmiss, rfl⟩ := mem_treeGaps.mp hrow
  obtain ⟨en, hen⟩ := hf.expr?_of_mem_nodes hr hn
  have hsite : p.site ∈ db.sites cfg n := List.mem_map_of_mem hp
  have hm : db.muted p.site = false := by
    rw [← hf.excluded_of_mem_points hen hp]
    exact (Point.missing_iff.mp hmiss).2
  refine ⟨rfl, fun hnone => ?_, hm, hf.site_mem_nodes hr hn hsite⟩
  have hawait : p.site ∈ db.awaiting cfg root :=
    (mem_awaiting hf hr).mpr ⟨hm, hnone, n, hn, ⟨p, hp, hmiss⟩, hsite⟩
  rw [hidle.awaiting] at hawait
  exact List.not_mem_nil hawait

/-- The statements of a current scope have reports, and all their rows have numbers. -/
theorem Current.statementDetail_eq {u : ScopeId} {scope : Scope} {id : StmtId} {st : Statement}
    (h : db.Current cfg u) (hf : db.Forest) (hu : db.scope? u = some scope)
    (hid : id ∈ scope.statements) (hs : db.stmt? id = some st) :
    db.statementDetail id cfg = .ok (db.treeGaps cfg st.root) :=
  hf.statementDetail_eq hs (h.exact.scorable hu id hid st hs)

end Database

namespace Session

open Database

variable {s s' : Session} {cfg : ScoringConfig} {action : Action}

/-- What holds of underline ids along a run under one configuration. -/
structure Tracked (s : Session) (cfg : ScoringConfig) : Prop where
  forest : s.db.Forest
  fresh : s.engine.isOutdated = false
  config : s.engine.config = cfg
  numbered : s.db.Numbered cfg
  audible : s.db.Audible

namespace Tracked

variable (h : s.Tracked cfg)

include h

theorem step_changed (hstep : s.step action = .ok s') : Changed cfg s.db s'.db := by
  rw [← h.config]
  exact (Session.step_ok h.forest h.fresh hstep).2.2.1

/-- A step keeps a session tracked. -/
theorem step_ok (hstep : s.step action = .ok s') : s'.Tracked cfg := by
  obtain ⟨hconfig, hfresh, -, -⟩ := Session.step_ok h.forest h.fresh hstep
  have hchanged := h.step_changed hstep
  exact ⟨h.forest.congr hchanged.bare, hfresh, hconfig.trans h.config,
    hchanged.numbered h.forest h.numbered, hchanged.audible h.forest h.numbered h.audible⟩

/-- Scopes are current after a pass, and stay so. -/
theorem step_current (hstep : s.step action = .ok s')
    (hpass : action = .scoreAll ∨ ∀ u, s.db.Current cfg u) (u : ScopeId) :
    s'.db.Current cfg u := by
  rcases hpass with hpass | hcurrent
  · rw [← h.config]
    exact (Session.step_ok h.forest h.fresh hstep).2.2.2 hpass u
  · exact (h.step_changed hstep).current h.forest (hcurrent u)

omit h in
/-- A run keeps a session tracked; with a pass on the way, all scopes are current in the end. -/
theorem run_ok {actions : List Action} (h : s.Tracked cfg) (hrun : s.run actions = .ok s') :
    s'.Tracked cfg ∧
      (.scoreAll ∈ actions ∨ (∀ u, s.db.Current cfg u) → ∀ u, s'.db.Current cfg u) := by
  induction actions generalizing s with
  | nil =>
    cases hrun
    exact ⟨h, fun hpass => hpass.resolve_left List.not_mem_nil⟩
  | cons action actions ih =>
    obtain ⟨s₁, hstep, hrun⟩ := bind_eq_ok_iff.mp hrun
    obtain ⟨htracked, hcurrent⟩ := ih (h.step_ok hstep) hrun
    refine ⟨htracked, fun hpass => hcurrent ?_⟩
    rw [List.mem_cons] at hpass
    rcases hpass with (hfirst | hlater) | hbefore
    · exact .inr (h.step_current hstep (.inl hfirst.symm))
    · exact .inl hlater
    · exact .inr (h.step_current hstep (.inr hbefore))

end Tracked

/-- On a consistent database that brings no numbers along, in every state that a run reaches under
one configuration, which is that of the last pass if there was one: numbers are positive, and
different within a statement's tree; no node with a number is excluded, itself or from above; each
of them is the site of a point that is scored; a step takes no number from a node that is not
excluded afterwards; and once a pass has run, every row of the report of a listed statement has a
number. -/
theorem run_numbers {db : Database} (hdb : db.check = .ok ()) (hnone : ∀ x, db.number? x = none)
    (engine : Engine) (hfresh : engine.isOutdated = false) {actions : List Action} {s : Session}
    (hrun : Session.run ⟨engine, db⟩ actions = .ok s) :
    (∀ id st, s.db.stmt? id = some st → ∃ nodes, s.db.subtree st.root = .ok nodes ∧
      ∀ x ∈ nodes, ∀ k, s.db.number? x = some k →
        1 ≤ k ∧ ∀ y ∈ nodes, s.db.number? y = some k → y = x) ∧
    (∀ x k, s.db.number? x = some k → s.db.isEffectivelyExcluded x = .ok false) ∧
    (∀ x k, s.db.number? x = some k → ∃ n points,
      s.db.scoredPoints n engine.config = .ok (some points) ∧ ∃ p ∈ points, p.site = x) ∧
    (∀ action s', s.step action = .ok s' → ∀ x k, s.db.number? x = some k →
      s'.db.isEffectivelyExcluded x = .ok false → s'.db.number? x = some k) ∧
    (.scoreAll ∈ actions → ∀ u scope, s.db.scope? u = some scope → ∀ id ∈ scope.statements,
      ∃ rows, s.db.statementDetail id engine.config = .ok rows ∧
        ∀ row ∈ rows, row.underline ≠ none) := by
  have hstart : Tracked ⟨engine, db⟩ engine.config :=
    ⟨forest_of_check hdb, hfresh, rfl, numbered_of_none hnone, audible_of_none hnone⟩
  obtain ⟨h, hcurrent⟩ := hstart.run_ok hrun
  have hf := h.forest
  refine ⟨?_, ?_, ?_, ?_, ?_⟩
  · intro id st hs
    obtain ⟨er, hr, -⟩ := hf.root hs
    refine ⟨_, hf.subtree_eq hr, fun x hx k hk => ⟨?_, fun y hy hky => ?_⟩⟩
    · exact UInt32.le_iff_toNat_le.mpr (UInt32.lt_iff_toNat_lt.mp (h.numbered.pos hk))
    · exact h.numbered.distinct hs hy hx hky hk
  · intro x k hk
    obtain ⟨e, he, -⟩ := exists_expr?_of_number? hk
    rw [hf.isEffectivelyExcluded_eq he, h.audible x k hk]
  · intro x k hk
    obtain ⟨id, st, n, -, -, hsite⟩ := h.numbered.site hk
    obtain ⟨points, hpoints, hp⟩ := mem_sites_iff.mp hsite
    exact ⟨n, points, hpoints, hp⟩
  · intro action s' hstep x k hk hm
    refine (h.step_changed hstep).number?_of_some hf h.audible hk ?_
    rw [muted, hm, Checked.getD]
  · intro hpass u scope hu id hid
    have hcur := hcurrent (.inl hpass) u
    obtain ⟨st, hs⟩ := hf.statement hu hid
    obtain ⟨er, hr, -⟩ := hf.root hs
    refine ⟨_, hcur.statementDetail_eq hf hu hid hs, fun row hrow => ?_⟩
    exact ((hcur.settled hu id hid st hs).number?_of_mem hf hr hrow).2.1

theorem run_numbers_andGate :
    andGate.check = .ok () ∧ (∀ x, andGate.number? x = none) ∧
      (Engine.new .default).isOutdated = false ∧ ∃ s,
        Session.run ⟨.new .default, andGate⟩ [.scoreAll, .setExclusion ⟨0⟩ ⟨0⟩ true true] = .ok s ∧
        s.db.number? ⟨2⟩ = some 1 ∧ s.db.isEffectivelyExcluded ⟨2⟩ = .ok false ∧
          ∃ rows, s.db.statementDetail ⟨0⟩ .default = .ok rows ∧
            ∀ row ∈ rows, row.underline ≠ none := by
  have hcheck : andGate.check = .ok () := by decide
  have hrun : (Session.run ⟨.new .default, andGate⟩
      [.scoreAll, .setExclusion ⟨0⟩ ⟨0⟩ true true]).map
        (fun s => (s.db.number? ⟨2⟩, (s.db.scope? ⟨0⟩).map Scope.statements)) =
          .ok (some 1, some [⟨0⟩]) := by
    decide +kernel
  refine ⟨hcheck, number?_andGate, rfl, ?_⟩
  rcases hs : Session.run ⟨.new .default, andGate⟩
      [.scoreAll, .setExclusion ⟨0⟩ ⟨0⟩ true true] with fault | s
  · rw [hs] at hrun
    cases hrun
  rw [hs] at hrun
  have hfound := Prod.mk.inj (Except.ok.inj hrun)
  obtain ⟨scope, hu, hlisted⟩ := Option.map_eq_some_iff.mp hfound.2
  obtain ⟨-, hheard, -, -, hrows⟩ := run_numbers hcheck number?_andGate (.new .default) rfl hs
  refine ⟨s, rfl, hfound.1, hheard ⟨2⟩ 1 hfound.1, hrows List.mem_cons_self ⟨0⟩ scope hu ⟨0⟩ ?_⟩
  rw [hlisted]
  exact List.mem_cons_self

end Session

end LogicCoverage
