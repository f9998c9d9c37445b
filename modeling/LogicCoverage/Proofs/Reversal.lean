import LogicCoverage.Proofs.Fixpoint

/-!
# Setting an exclusion back

When the exclusion of a node is set and then set back, the tree has the points it had at first, and
what the second exclusion reports is the opposite of what the first reported. The line moves back
only if it stood with the node: a line that was excluded while its root was not is left behind.
-/

namespace LogicCoverage.Database

variable {db db' db₂ : Database} {cfg : ScoringConfig} {u v : ScopeId} {x : ExprId}

/-! ## Two writes at one place -/

/-- The last flag counts. -/
theorem setExcluded_setExcluded (db : Database) (x : ExprId) (excluded excluded' : Bool) :
    (db.setExcluded x excluded).setExcluded x excluded' = db.setExcluded x excluded' := by
  simp only [setExcluded, modifyExpr, modify_modify]

/-- Flags and lines may be set in either order. -/
theorem setExcluded_moveLine (db : Database) (x : ExprId) (id : StmtId)
    (excluded moves line : Bool) :
    (db.moveLine id moves line).setExcluded x excluded =
      (db.setExcluded x excluded).moveLine id moves line := by
  cases moves <;> rfl

/-- A line that moves there and back is where it was. -/
theorem moveLine_moveLine_eq_self {id : StmtId} {st : Statement} (hs : db.stmt? id = some st)
    (moves excluded : Bool) :
    (db.moveLine id moves excluded).moveLine id moves st.lineExcluded = db := by
  cases moves with
  | false => rfl
  | true =>
    have hstmts : (db.stmts.modify id.index.toNat fun s => { s with lineExcluded := excluded }).modify
        id.index.toNat (fun s => { s with lineExcluded := st.lineExcluded }) = db.stmts := by
      rw [modify_modify]
      apply modify_eq_self
      intro st' hs'
      cases hs.symm.trans hs'
      rfl
    show (db.setLineExcluded id excluded).setLineExcluded id st.lineExcluded = db
    rw [setLineExcluded, setLineExcluded, modifyStmt, modifyStmt, hstmts]

/-- A line that moves with an exclusion moves back with it, if it stood with the node. -/
theorem movesLine_back {st : Statement} {flag : Bool} (hline : st.lineExcluded = flag)
    (root : Expression) (x : ExprId) (excluded alsoLine : Bool) :
    movesLine { st with lineExcluded := if movesLine st root x excluded alsoLine then excluded
        else st.lineExcluded } root x flag alsoLine =
      movesLine st root x excluded alsoLine := by
  cases hmoves : movesLine st root x excluded alsoLine with
  | false => simp [movesLine, hline]
  | true =>
    simp only [movesLine, Bool.and_eq_true, decide_eq_true_eq] at hmoves
    obtain ⟨hcounts, hne⟩ := hmoves
    rw [hline] at hne
    simp [movesLine, hcounts, hne.symm]

/-- A scope is known by what is bare of it and its statistic. -/
theorem Scope.eq_of_unscored {scope scope' : Scope} (h : scope'.unscored = scope.unscored)
    (hstat : scope'.stat = scope.stat) : scope' = scope := by
  cases scope
  cases scope'
  cases hstat
  simpa [Scope.unscored] using h

/-! ## Two exclusions of one node -/

namespace Target.Toggled

variable {excluded alsoLine : Bool} {o o' : ExclusionOutcome} {t : db.Target u x}
  {t' : db'.Target u x} (h : t.Toggled cfg excluded alsoLine o db')
  (h' : t'.Toggled cfg t.node.excluded alsoLine o' db₂) (hf : db.Forest)

include h h' hf

/-- Apart from the scores, only the line may have moved. -/
theorem unscored_back : db₂.unscored =
    ((db.moveLine t.stmt (movesLine t.st t.root x excluded alsoLine) excluded).moveLine t.stmt
      (movesLine t'.st t'.root x t.node.excluded alsoLine) t.node.excluded).unscored := by
  have hnode : db.unscored.expr? x = some t.node.unscored := by
    rw [expr?_unscored, t.node_eq]
    rfl
  have hback : db.unscored.setExcluded x t.node.excluded = db.unscored :=
    setExcluded_eq_self (e := t.node.unscored) hnode
  -- of the two writes to the node the second remains, and it writes what was there at first
  rw [Database.Toggled.unscored h', (t.same h.bare hf t').stmt]
  simp only [unscored_moveLine, unscored_setExcluded]
  rw [Database.Toggled.unscored h]
  simp only [unscored_moveLine, unscored_setExcluded]
  rw [setExcluded_moveLine, setExcluded_setExcluded, hback]

theorem exprs_back : db₂.exprs.map Expression.unscored = db.exprs.map Expression.unscored := by
  have hexprs := congrArg Database.exprs (h.unscored_back h' hf)
  exact hexprs.trans (congrArg (Array.map Expression.unscored)
    ((sameNodes_moveLine _ _ _ _).exprs.trans (sameNodes_moveLine _ _ _ _).exprs))

/-- The points of the tree are those there were at first. -/
theorem treePoints_back : db₂.treePoints cfg t.st.root = db.treePoints cfg t.st.root := by
  have hb : db₂.bare = db.bare := h'.bare.trans h.bare
  have hflagged : db₂.flagged = db.flagged := by
    rw [flagged_eq_of_unscored (h.unscored_back h' hf), (sameNodes_moveLine _ _ _ _).flagged,
      (sameNodes_moveLine _ _ _ _).flagged]
  exact hf.treePoints_congr t.root_eq hb fun y _ => congrFun (hf.muted_congr hb hflagged) y

/-- The points that came to be covered cease to be, and the other way round. -/
theorem differences_back :
    o'.combHitDelta = -o.combHitDelta ∧ o'.combExcludedDelta = -o.combExcludedDelta := by
  obtain ⟨hhit, hexcluded⟩ := h.differences hf
  obtain ⟨hhit', hexcluded'⟩ := h'.differences (hf.congr h.bare)
  rw [Statement.root_eq_of_bare (t.same h.bare hf t').st, h.treePoints_back h' hf] at hhit' hexcluded'
  constructor
  · rw [hhit', hhit]
    omega
  · rw [hexcluded', hexcluded]
    omega

/-- What is reported the second time is the opposite of what was reported the first time, up to what
is said of the line. -/
theorem outcome_back : o' = { o with
    combHitDelta := -o.combHitDelta
    combExcludedDelta := -o.combExcludedDelta
    lineHitDelta := o'.lineHitDelta } := by
  obtain ⟨hhit, hexcluded⟩ := h.differences_back h' hf
  rw [h'.outcome_eq, h.unchangedOutcome_eq hf, hhit, hexcluded]

/-- A counter that moves back is where it was at first. -/
theorem tally_back (col : Column) (hcol : o'.delta col = -o.delta col) {scope scope₂ : Scope}
    (hv : db.scope? v = some scope) (hv₂ : db₂.scope? v = some scope₂) :
    scope₂.stat.tally col = scope.stat.tally col := by
  obtain ⟨scope₁, hv₁, hstmts', hmoved', hkept'⟩ := Database.Toggled.scope_cases h' hv₂
  obtain ⟨scope₀, hv₀, hstmts, hmoved, hkept⟩ := Database.Toggled.scope_cases h hv₁
  cases hv.symm.trans hv₀
  rw [(t.same h.bare hf t').stmt, hstmts] at hmoved' hkept'
  by_cases hid : t.stmt ∈ scope.statements
  · have hfirst := hmoved hid col
    have hsecond := hmoved' hid col
    omega
  · rw [hkept' hid, hkept hid]

variable (hline : t.st.lineExcluded = t.node.excluded)

include hline

omit h' in
/-- The line moves back just if it moved. -/
theorem moves_back (t' : db'.Target u x) : movesLine t'.st t'.root x t.node.excluded alsoLine =
    movesLine t.st t.root x excluded alsoLine := by
  rw [(h.after hf t').2, ← movesLine_bare, (t.same h.bare hf t').root, movesLine_bare,
    movesLine_back hline]

/-- The line counts back. -/
theorem lineHitDelta_back : o'.lineHitDelta = -o.lineHitDelta := by
  have hmoves := h.moves_back hf hline t'
  obtain ⟨before, after, db₁, -, -, rfl⟩ := h.turned
  obtain ⟨before', after', db₁', -, -, rfl⟩ := h'.turned
  simp only [outcomeOf, hmoves]
  cases hm : movesLine t.st t.root x excluded alsoLine with
  | false => rfl
  | true =>
    -- only a line that is not yet as it is to be moves, so the node was not either
    simp only [movesLine, Bool.and_eq_true, decide_eq_true_eq, hline] at hm
    have hnode : t.node.excluded = !excluded := Bool.eq_not.mpr hm.2
    rw [hnode]
    cases excluded <;> rfl

/-- If the line stood with the node, all is as it was at first, apart from the scores. -/
theorem unscored_eq : db₂.unscored = db.unscored := by
  rw [h.unscored_back h' hf, h.moves_back hf hline t', ← hline, moveLine_moveLine_eq_self t.st_eq]

/-- If the line stood with the node, the scopes have the statistics they had at first. -/
theorem scope?_eq (v : ScopeId) : db₂.scope? v = db.scope? v := by
  have hb : db₂.bare = db.bare := h'.bare.trans h.bare
  have hdelta (col : Column) : o'.delta col = -o.delta col := by
    obtain ⟨hhit, hexcluded⟩ := h.differences_back h' hf
    have hmoved := h.lineHitDelta_back h' hf hline
    cases col <;> simp [ExclusionOutcome.delta, hhit, hexcluded, hmoved]
  cases hv : db.scope? v with
  | none =>
    rw [Option.eq_none_iff_forall_not_mem]
    intro scope₂ hv₂
    obtain ⟨scope, hscope, -⟩ := exists_scope?_of_bare hb.symm hv₂
    cases hv.symm.trans hscope
  | some scope =>
    obtain ⟨scope₂, hv₂, hscope⟩ := exists_scope?_of_bare hb hv
    have htally (col : Column) := h.tally_back h' hf col (hdelta col) hv hv₂
    rw [hv₂, Scope.eq_of_unscored hscope (Statistic.tally_inj (funext htally))]

end Target.Toggled

/-- On a consistent database, whatever its numbers and cached statistics are, let the exclusion of a
node that stands in the tree of a listed statement be set to what it is not, and then set back.
Neither request is refused. If both are carried out, the second reports the same statement and scopes
as the first, with the opposite differences of points; all exclusions of nodes and all counters of
points are as they were. If the line of the statement stood with the node, the differences of lines
are opposite too, and all statements and all scopes with their statistics are as they were. -/
theorem setExclusion_reversible (hdb : db.check = .ok ()) (t : db.Target u x) {flag : Bool}
    (hflag : t.node.excluded = flag) (cfg : ScoringConfig) (alsoLine : Bool) :
    (∀ error, db.setExclusion cfg u x (!flag) alsoLine ≠ .error (.lookup error)) ∧
    ∀ o db', db.setExclusion cfg u x (!flag) alsoLine = .ok (o, db') →
      (∀ error, db'.setExclusion cfg u x flag alsoLine ≠ .error (.lookup error)) ∧
      ∀ o' db₂, db'.setExclusion cfg u x flag alsoLine = .ok (o', db₂) →
        o' = { o with
          combHitDelta := -o.combHitDelta
          combExcludedDelta := -o.combExcludedDelta
          lineHitDelta := o'.lineHitDelta } ∧
        db₂.exprs.map Expression.unscored = db.exprs.map Expression.unscored ∧
        (∀ v scope, db.scope? v = some scope → ∃ scope₂, db₂.scope? v = some scope₂ ∧
          scope₂.stat.combHit = scope.stat.combHit ∧ scope₂.stat.combTotal = scope.stat.combTotal ∧
            scope₂.stat.combExcluded = scope.stat.combExcluded) ∧
        (t.st.lineExcluded = flag → o'.lineHitDelta = -o.lineHitDelta ∧ db₂.stmts = db.stmts ∧
          ∀ v, db₂.scope? v = db.scope? v) := by
  have hf : db.Forest := forest_of_check hdb
  subst hflag
  refine ⟨hf.setExclusion_ne_lookup cfg _ alsoLine t, fun o db' hset => ?_⟩
  have h := t.toggled hf hset
  have hf' : db'.Forest := hf.congr h.bare
  obtain ⟨t'⟩ := t.exists_of_bare h.bare
  refine ⟨hf'.setExclusion_ne_lookup cfg _ alsoLine t', fun o' db₂ hback => ?_⟩
  have h' := t'.toggled hf' hback
  refine ⟨h.outcome_back h' hf, h.exprs_back h' hf, fun v scope hv => ?_, fun hline => ⟨?_, ?_, ?_⟩⟩
  · obtain ⟨hhit, hexcluded⟩ := h.differences_back h' hf
    obtain ⟨scope₂, hv₂, -⟩ := exists_scope?_of_bare (h'.bare.trans h.bare) hv
    refine ⟨scope₂, hv₂, UInt32.toNat_inj.mp ?_, UInt32.toNat_inj.mp ?_, UInt32.toNat_inj.mp ?_⟩
    · exact h.tally_back h' hf .combHit hhit hv hv₂
    · exact h.tally_back h' hf .combTotal (by rfl) hv hv₂
    · exact h.tally_back h' hf .combExcluded hexcluded hv hv₂
  · exact h.lineHitDelta_back h' hf hline
  · exact stmts_eq_of_unscored (h.unscored_eq h' hf hline)
  · exact h.scope?_eq h' hf hline

theorem setExclusion_reversible_sharedGate :
    sharedGate.check = .ok () ∧ ∃ o db o' db',
      sharedGate.setExclusion .default ⟨1⟩ ⟨2⟩ true true = .ok (o, db) ∧
        db.setExclusion .default ⟨1⟩ ⟨2⟩ false true = .ok (o', db') ∧
          o = ⟨⟨0⟩, 2, 2, 1, false, [⟨0⟩, ⟨1⟩]⟩ ∧ o' = ⟨⟨0⟩, -2, -2, -1, false, [⟨0⟩, ⟨1⟩]⟩ ∧
            db'.stmts = sharedGate.stmts ∧ ∀ v, db'.scope? v = sharedGate.scope? v := by
  have hcheck : sharedGate.check = .ok () := by decide
  let t : sharedGate.Target ⟨1⟩ ⟨2⟩ :=
    ⟨_, ⟨0⟩, _, _, _, rfl, List.mem_cons_self, rfl, rfl, rfl, by decide⟩
  have hrun : (sharedGate.setExclusion .default ⟨1⟩ ⟨2⟩ true true >>= fun r =>
      (r.2.setExclusion .default ⟨1⟩ ⟨2⟩ false true).map fun r' => r.1) =
        .ok ⟨⟨0⟩, 2, 2, 1, false, [⟨0⟩, ⟨1⟩]⟩ := by decide +kernel
  obtain ⟨⟨o, db⟩, hset, hrun⟩ := bind_eq_ok_iff.mp hrun
  rcases hback : db.setExclusion .default ⟨1⟩ ⟨2⟩ false true with refusal | ⟨o', db'⟩
  · rw [hback] at hrun
    cases hrun
  rw [hback] at hrun
  cases Except.ok.inj hrun
  have hflag : t.node.excluded = false := rfl
  obtain ⟨-, hreversed⟩ := setExclusion_reversible hcheck t hflag .default true
  obtain ⟨houtcome, -, -, hline⟩ := (hreversed _ db hset).2 o' db' hback
  obtain ⟨hdelta, hstmts, hscopes⟩ := hline rfl
  refine ⟨hcheck, _, db, o', db', hset, hback, rfl, ?_, hstmts, hscopes⟩
  rw [houtcome, hdelta]

end LogicCoverage.Database
