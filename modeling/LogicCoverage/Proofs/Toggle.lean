import LogicCoverage.Proofs.Shift

/-!
# One exclusion

A toggle scores the tree of a statement, sets the exclusion of a node in it, scores it again, and
moves the statistics of the scopes that list the statement by the difference. What is muted changes
in the tree below the node only. Hence the shares of other statements stay, that of the statement
changes by the difference, and where the statistics were exact they are exact afterwards.
-/

namespace LogicCoverage.Database

open Relation

variable {db db' : Database} {cfg : ScoringConfig} {x y : ExprId} {e : Expression}
  {excluded : Bool}

/-! ## The exclusion of a node -/

/-- Excludes a node, or lifts its exclusion. -/
def setExcluded (db : Database) (x : ExprId) (excluded : Bool) : Database :=
  db.modifyExpr x fun e => { e with excluded }

/-- Flags are not part of what is bare. -/
theorem bare_setExcluded (db : Database) (x : ExprId) (excluded : Bool) :
    (db.setExcluded x excluded).bare = db.bare := by
  have hexprs : (db.exprs.modify x.index.toNat fun e => { e with excluded }).map Expression.bare =
      db.exprs.map Expression.bare := map_modify_of_comp (fun _ => by rfl) _ _
  simp only [bare, setExcluded, modifyExpr, hexprs]

/-- Flags are no scores. -/
theorem unscored_setExcluded (db : Database) (x : ExprId) (excluded : Bool) :
    (db.setExcluded x excluded).unscored = db.unscored.setExcluded x excluded := by
  have hexprs : (db.exprs.modify x.index.toNat fun e => { e with excluded }).map
      Expression.unscored = (db.exprs.map Expression.unscored).modify x.index.toNat
        fun e => { e with excluded } := map_modify_of_comm (fun _ => by rfl) _ _
  simp only [unscored, setExcluded, modifyExpr, hexprs]

theorem Scored.bare_setExcluded {root : ExprId} {marks marks' : PassMarks} {counts : TreeCounts}
    (h : db.Scored cfg root marks counts marks' db') (x : ExprId) (excluded : Bool) :
    (db'.setExcluded x excluded).bare = db.bare :=
  (Database.bare_setExcluded db' x excluded).trans h.bare

theorem Scored.stmt?_setExcluded {root : ExprId} {marks marks' : PassMarks} {counts : TreeCounts}
    (h : db.Scored cfg root marks counts marks' db') (x : ExprId) (excluded : Bool)
    (stmt : StmtId) : (db'.setExcluded x excluded).stmt? stmt = db.stmt? stmt := by
  show db'.stmt? stmt = _
  rw [stmt?, h.stmts, stmt?]

/-- A flag changes no number. -/
theorem number?_setExcluded (db : Database) (x : ExprId) (excluded : Bool) (y : ExprId) :
    (db.setExcluded x excluded).number? y = db.number? y := by
  rw [number?, setExcluded, expr?_modifyExpr]
  split
  · rw [number?]
    cases db.expr? y <;> rfl
  · rfl

/-- One node gets the flag. -/
theorem flagged_setExcluded (h : db.expr? x = some e) (excluded : Bool) (y : ExprId) :
    (db.setExcluded x excluded).flagged y = if y = x then excluded else db.flagged y := by
  rw [flagged, setExcluded, expr?_modifyExpr]
  split
  · rename_i hy
    rw [hy, h]
    rfl
  · rfl

namespace Forest

variable (hf : db.Forest)

include hf

/-- What is not below the node is muted or not as before. -/
theorem muted_setExcluded (h : db.expr? x = some e) (hy : y ∉ db.nodes x) :
    (db.setExcluded x excluded).muted y = db.muted y := by
  have hb := bare_setExcluded db x excluded
  rw [Bool.eq_iff_iff, (hf.congr hb).muted_iff_flagged, hf.muted_iff_flagged, ← under_bare, hb,
    under_bare]
  refine exists_congr fun z => and_congr_right fun hz => ?_
  rw [flagged_setExcluded h, if_neg]
  rintro rfl
  exact hy ((hf.mem_nodes_iff h).mpr hz)

/-- What is below an excluded node is muted. -/
theorem muted_setExcluded_true (h : db.expr? x = some e) (hy : y ∈ db.nodes x) :
    (db.setExcluded x true).muted y = true := by
  have hb := bare_setExcluded db x true
  rw [(hf.congr hb).muted_iff_flagged, ← under_bare, hb, under_bare]
  exact ⟨x, (hf.mem_nodes_iff h).mp hy, by rw [flagged_setExcluded h, if_pos rfl]⟩

end Forest

/-! ## The exclusion of a line -/

/-- Excludes the line of a statement, or lifts its exclusion. -/
def setLineExcluded (db : Database) (id : StmtId) (excluded : Bool) : Database :=
  db.modifyStmt id fun s => { s with lineExcluded := excluded }

/-- Lines are not part of what is bare. -/
theorem bare_setLineExcluded (db : Database) (id : StmtId) (excluded : Bool) :
    (db.setLineExcluded id excluded).bare = db.bare := by
  have hstmts : (db.stmts.modify id.index.toNat fun s => { s with lineExcluded := excluded }).map
      Statement.bare = db.stmts.map Statement.bare := map_modify_of_comp (fun _ => by rfl) _ _
  simp only [bare, setLineExcluded, modifyStmt, hstmts]

/-- Excludes the line of a statement, or lifts its exclusion, if it is to move. -/
def moveLine (db : Database) (id : StmtId) (moves excluded : Bool) : Database :=
  if moves then db.setLineExcluded id excluded else db

/-- No node changes with a line. -/
theorem sameNodes_moveLine (db : Database) (id : StmtId) (moves excluded : Bool) :
    db.SameNodes (db.moveLine id moves excluded) := by
  cases moves with
  | true => exact ⟨rfl, bare_setLineExcluded db id excluded⟩
  | false => exact ⟨rfl, rfl⟩

/-- The line of one statement moves, if it does. -/
theorem stmt?_moveLine (db : Database) (id : StmtId) (moves excluded : Bool) (other : StmtId) :
    (db.moveLine id moves excluded).stmt? other =
      if other = id then (db.stmt? other).map fun st =>
        { st with lineExcluded := if moves then excluded else st.lineExcluded }
      else db.stmt? other := by
  cases moves with
  | true => exact db.stmt?_modifyStmt id _ other
  | false =>
    show db.stmt? other = _
    cases db.stmt? other <;> simp

/-- To move a line touches no scope. -/
theorem scopes_moveLine (db : Database) (id : StmtId) (moves excluded : Bool) :
    (db.moveLine id moves excluded).scopes = db.scopes := by
  cases moves <;> rfl

/-- Lines are no scores. -/
theorem unscored_moveLine (db : Database) (id : StmtId) (moves excluded : Bool) :
    (db.moveLine id moves excluded).unscored = db.unscored.moveLine id moves excluded := by
  cases moves <;> rfl

theorem movesLine_bare (st : Statement) (root : Expression) (x : ExprId)
    (excluded alsoLine : Bool) :
    movesLine st root.bare x excluded alsoLine = movesLine st root x excluded alsoLine := rfl

/-! ## Scoring before and after -/

/-- A tree was scored, the exclusion of one of its nodes was set, and the tree was scored again. -/
def Turned (db : Database) (cfg : ScoringConfig) (root x : ExprId) (excluded : Bool)
    (before after : TreeCounts) (db' : Database) : Prop :=
  ∃ db₁ m₁ m₂ m₃ m₄, db.Scored cfg root m₁ before m₂ db₁ ∧
    (db₁.setExcluded x excluded).Scored cfg root m₃ after m₄ db'

namespace Turned

variable {stmt : StmtId} {st : Statement} {before after : TreeCounts}
  (h : db.Turned cfg st.root x excluded before after db')

include h

/-- Both scorings and the flag leave alone what is bare. -/
theorem bare : db'.bare = db.bare := by
  obtain ⟨db₁, m₁, m₂, m₃, m₄, hbefore, hafter⟩ := h
  rw [hafter.bare, bare_setExcluded, hbefore.bare]

/-- Apart from the scores, only the exclusion of the node is set. -/
theorem unscored : db'.unscored = (db.setExcluded x excluded).unscored := by
  obtain ⟨db₁, m₁, m₂, m₃, m₄, hbefore, hafter⟩ := h
  rw [hafter.unscored, unscored_setExcluded, hbefore.unscored, unscored_setExcluded]

theorem stmts : db'.stmts = db.stmts := by
  obtain ⟨db₁, m₁, m₂, m₃, m₄, hbefore, hafter⟩ := h
  exact hafter.stmts.trans hbefore.stmts

theorem scopes : db'.scopes = db.scopes := by
  obtain ⟨db₁, m₁, m₂, m₃, m₄, hbefore, hafter⟩ := h
  exact hafter.scopes.trans hbefore.scopes

/-- No scope is touched before the statistics are moved. -/
theorem scope?_moveLine (id : StmtId) (moves : Bool) (u : ScopeId) :
    (db'.moveLine id moves excluded).scope? u = db.scope? u := by
  rw [scope?, scopes_moveLine, h.scopes, scope?]

variable (hf : db.Forest) (hs : db.stmt? stmt = some st)

include hf hs

/-- The tree is counted before the flag is set, and after. -/
theorem counts : before.Counts (db.treePoints cfg st.root) ∧
    after.Counts (db'.treePoints cfg st.root) := by
  obtain ⟨db₁, m₁, m₂, m₃, m₄, hbefore, hafter⟩ := h
  obtain ⟨er, her, -⟩ := hf.root hs
  have hb := hbefore.bare_setExcluded x excluded
  obtain ⟨er', her', -⟩ := exists_expr?_of_bare hb her
  refine ⟨hbefore.counts, ?_⟩
  rw [(hf.congr hb).treePoints_congr her' hafter.bare fun y _ =>
    congrFun (hafter.muted (hf.congr hb)) y]
  exact hafter.counts

/-- No point comes or goes. -/
theorem total_eq : before.total = after.total := by
  obtain ⟨er, her, -⟩ := hf.root hs
  obtain ⟨hbefore, hafter⟩ := h.counts hf hs
  rw [← UInt32.toNat_inj, hbefore.total, hafter.total, hf.length_treePoints_congr her h.bare]

/-- Numbers that could have been given stay so. -/
theorem numbered (hn : db.Numbered cfg) : db'.Numbered cfg := by
  obtain ⟨db₁, m₁, m₂, m₃, m₄, hbefore, hafter⟩ := h
  have hf₁ := hf.congr hbefore.bare
  have hb₂ := bare_setExcluded db₁ x excluded
  have hs₂ : (db₁.setExcluded x excluded).stmt? stmt = some st :=
    (hbefore.stmt?_setExcluded x excluded stmt).trans hs
  have hn₁ : db₁.Numbered cfg := Rescored.numbered ⟨stmt, st, m₁, before, m₂, hs, hbefore⟩ hf hn
  have hn₂ := hn₁.congr hf₁ hb₂ (number?_setExcluded db₁ x excluded)
  exact Rescored.numbered ⟨stmt, st, m₃, after, m₄, hs₂, hafter⟩ (hf₁.congr hb₂) hn₂

/-- Afterwards the tree is idle. -/
theorem settled : db'.Settled cfg stmt := by
  intro st' hst'
  rw [stmt?, h.stmts] at hst'
  cases hs.symm.trans hst'
  obtain ⟨db₁, m₁, m₂, m₃, m₄, hbefore, hafter⟩ := h
  obtain ⟨er, her, -⟩ := hf.root hs
  have hb := hbefore.bare_setExcluded x excluded
  obtain ⟨er', her', -⟩ := exists_expr?_of_bare hb her
  exact hafter.idle (hf.congr hb) her'

omit hs in
/-- Nodes that are not muted keep their numbers. -/
theorem number?_of_some (ha : db.Audible) {k : UInt32} (hk : db.number? y = some k)
    (hm : db'.muted y = false) : db'.number? y = some k := by
  obtain ⟨db₁, m₁, m₂, m₃, m₄, hbefore, hafter⟩ := h
  have hb := hbefore.bare_setExcluded x excluded
  rw [hafter.muted (hf.congr hb)] at hm
  apply hafter.number?_of_some hm
  rw [number?_setExcluded]
  exact hbefore.number?_of_some (ha y k hk) hk

variable (he : db.expr? x = some e)

include he

omit hs in
/-- What is not below the node is muted or not as before. -/
theorem muted_of_notMem (hy : y ∉ db.nodes x) : db'.muted y = db.muted y := by
  obtain ⟨db₁, m₁, m₂, m₃, m₄, hbefore, hafter⟩ := h
  have hf₁ := hf.congr hbefore.bare
  obtain ⟨e₁, he₁, -⟩ := exists_expr?_of_bare hbefore.bare he
  rw [hafter.muted (hf₁.congr (bare_setExcluded db₁ x excluded)), hf₁.muted_setExcluded he₁,
    hbefore.muted hf]
  rwa [nodes_congr hbefore.bare]

omit hs in
/-- What is below an excluded node is muted. -/
theorem muted_of_mem (hx : excluded = true) (hy : y ∈ db.nodes x) : db'.muted y = true := by
  obtain ⟨db₁, m₁, m₂, m₃, m₄, hbefore, hafter⟩ := h
  subst hx
  have hf₁ := hf.congr hbefore.bare
  obtain ⟨e₁, he₁, -⟩ := exists_expr?_of_bare hbefore.bare he
  rw [hafter.muted (hf₁.congr (bare_setExcluded db₁ x true)), hf₁.muted_setExcluded_true he₁]
  rwa [nodes_congr hbefore.bare]

variable (hx : x ∈ db.nodes st.root)

include hx

/-- Nodes that come to be muted lose their numbers. -/
theorem audible (hn : db.Numbered cfg) (ha : db.Audible) : db'.Audible := by
  intro y k hk
  have hmuted : y ∉ db.nodes x → db.muted y = false → db'.muted y = false := fun hy hm =>
    (h.muted_of_notMem hf he hy).trans hm
  obtain ⟨db₁, m₁, m₂, m₃, m₄, hbefore, hafter⟩ := h
  obtain ⟨er, her, -⟩ := hf.root hs
  have hrun : Rescored cfg db db₁ := ⟨stmt, st, m₁, before, m₂, hs, hbefore⟩
  have hb := hbefore.bare_setExcluded x excluded
  have hf₂ := hf.congr hb
  obtain ⟨er', her', -⟩ := exists_expr?_of_bare hb her
  rcases hafter.number?_eq_some hf₂ her' hk with hold | ⟨hawait, -, -⟩
  · rw [number?_setExcluded] at hold
    have hm : db.muted y = false := by
      rw [← hbefore.muted hf]
      exact hrun.audible hf ha y k hold
    by_cases hy : y ∈ db.nodes x
    · -- The node is a site of its tree, and so was visited.
      obtain ⟨stmt', st', n, hs', hmem, hsite⟩ := (hrun.numbered hf hn).site hold
      rw [hrun.stmt?] at hs'
      rw [nodes_congr hbefore.bare] at hmem
      obtain ⟨er'', her'', -⟩ := hf.root hs'
      obtain ⟨en, hen⟩ := hf.expr?_of_mem_nodes her'' hmem
      rw [hrun.sites_eq hf hen] at hsite
      have hroot : y ∈ db.nodes st'.root := hf.site_mem_nodes her'' hmem hsite
      cases hf.stmt_eq_of_mem_nodes hs hs' (hf.nodes_trans her hx hy) hroot
      cases hs.symm.trans hs'
      rw [hafter.muted hf₂, Bool.eq_false_iff]
      intro hmute
      obtain ⟨en', hen', -⟩ := exists_expr?_of_bare hb hen
      have hnone := hafter.number?_of_muted (n := n) (by rwa [nodes_congr hb])
        (by rwa [← hf₂.sites_bare hen', hb, hf.sites_bare hen]) hmute
      cases hnone.symm.trans hk
    · exact hmuted hy hm
  · rw [hafter.muted hf₂]
    exact ((mem_awaiting hf₂ her').mp hawait).1

/-- The trees of other statements stay settled. -/
theorem settled_of_ne {stmt' : StmtId} (hne : stmt' ≠ stmt) (hset : db.Settled cfg stmt') :
    db'.Settled cfg stmt' := by
  intro st' hs'
  rw [stmt?, h.stmts] at hs'
  obtain ⟨er, her, -⟩ := hf.root hs
  obtain ⟨er', her', -⟩ := hf.root hs'
  have apart {y : ExprId} (hy : y ∈ db.nodes st'.root) : y ∉ db.nodes st.root := fun hy' =>
    hne (hf.stmt_eq_of_mem_nodes hs' hs hy hy')
  have hnumber : ∀ y ∈ db.nodes st'.root, db'.number? y = db.number? y := by
    intro y hy
    obtain ⟨db₁, m₁, m₂, m₃, m₄, hbefore, hafter⟩ := h
    have hb := hbefore.bare_setExcluded x excluded
    obtain ⟨er₂, her₂, -⟩ := exists_expr?_of_bare hb her
    rw [hafter.number?_of_notMem (hf.congr hb) her₂ (by rw [nodes_congr hb]; exact apart hy),
      number?_setExcluded, hbefore.number?_of_notMem hf her (apart hy)]
  refine (hset st' hs').congr hf her' h.bare ?_ ?_ ?_ ?_
  · intro y hy
    exact h.muted_of_notMem hf he fun hyx => apart hy (hf.nodes_trans her hx hyx)
  · intro y hy _ hnone
    rwa [hnumber y hy] at hnone
  · intro y hy _ hnone
    rwa [hnumber y hy]
  · intro y hy k hk
    rw [hnumber y hy] at hk
    exact .inl hk

end Turned

/-! ## The whole toggle -/

/-- What a toggle reports, given the counts of the tree before and after it. -/
def outcomeOf (db : Database) (id : StmtId) (ex : Expression) (before after : TreeCounts)
    (moves excluded : Bool) : ExclusionOutcome where
  stmt := id
  combHitDelta := after.hit.toNat - before.hit.toNat
  combExcludedDelta := after.excluded.toNat - before.excluded.toNat
  lineHitDelta := if moves then (if excluded then 1 else -1) else 0
  shadowed := db.mutedOwner ex.parent
  scopes := db.scopesListing id

/-- A toggle has scored the tree before and after, has moved the line, and has moved the statistics
of the scopes that list the statement. -/
def Toggled (db : Database) (cfg : ScoringConfig) (id : StmtId) (st : Statement) (x : ExprId)
    (ex : Expression) (moves excluded : Bool) (o : ExclusionOutcome) (db' : Database) : Prop :=
  ∃ before after db₁, db.Turned cfg st.root x excluded before after db₁ ∧
    o = db.outcomeOf id ex before after moves excluded ∧
      (db₁.moveLine id moves excluded).Moved o.delta (db.scopesListing id) db'

/-- Apart from the scores, a toggle sets the exclusion of the node and moves the line. -/
theorem Toggled.unscored {id : StmtId} {st : Statement} {ex : Expression} {moves : Bool}
    {o : ExclusionOutcome} (h : db.Toggled cfg id st x ex moves excluded o db') :
    db'.unscored = ((db.setExcluded x excluded).moveLine id moves excluded).unscored := by
  obtain ⟨before, after, db₁, hturned, -, hmoved⟩ := h
  rw [hmoved.unscored, unscored_moveLine, hturned.unscored, unscored_moveLine]

/-- Only the exclusion of the node is set. -/
theorem Toggled.flagged {id : StmtId} {st : Statement} {ex : Expression} {moves : Bool}
    {o : ExclusionOutcome} (h : db.Toggled cfg id st x ex moves excluded o db')
    (he : db.expr? x = some e) (y : ExprId) :
    db'.flagged y = if y = x then excluded else db.flagged y := by
  rw [flagged_eq_of_unscored h.unscored, (sameNodes_moveLine _ id moves excluded).flagged,
    flagged_setExcluded he]

/-- Why a toggle fails: the tree cannot be scored before or afterwards, or some statistic does not
take the difference. -/
inductive Untoggled (db : Database) (cfg : ScoringConfig) (id : StmtId) (st : Statement)
    (x : ExprId) (ex : Expression) (moves excluded : Bool) : Fault → Prop where
  | before {fault} : db.Unscored cfg st.root fault →
      Untoggled db cfg id st x ex moves excluded fault
  | after {fault marks counts marks' db₁} : db.Scored cfg st.root marks counts marks' db₁ →
    (db₁.setExcluded x excluded).Unscored cfg st.root fault →
      Untoggled db cfg id st x ex moves excluded fault
  | shift {fault before after db₁ u scope col} :
    db.Turned cfg st.root x excluded before after db₁ →
      db.scope? u = some scope → id ∈ scope.statements →
        ¬ InRange (scope.stat.tally col +
            (db.outcomeOf id ex before after moves excluded).delta col) →
          Untoggled db cfg id st x ex moves excluded fault

/-- Which scopes list a statement is read off the scopes. -/
theorem scopesListing_congr (h : db'.scopes = db.scopes) (id : StmtId) :
    db'.scopesListing id = db.scopesListing id := by
  simp only [scopesListing, scopeIds, scope?, h]

/-- Once the tree was scored twice, only a statistic can fail. -/
theorem Turned.shift_cases {id : StmtId} {st : Statement} {before after : TreeCounts}
    (h : db.Turned cfg st.root x excluded before after db') (ex : Expression) (moves : Bool) :
    (∃ db₂, (db.scopesListing id).foldlM
        (Exclusion.shiftScope (db.outcomeOf id ex before after moves excluded))
        (db'.moveLine id moves excluded) = .ok db₂ ∧
      db.Toggled cfg id st x ex moves excluded
        (db.outcomeOf id ex before after moves excluded) db₂) ∨
    ∃ fault, (db.scopesListing id).foldlM
        (Exclusion.shiftScope (db.outcomeOf id ex before after moves excluded))
        (db'.moveLine id moves excluded) = .error fault ∧
      db.Untoggled cfg id st x ex moves excluded fault := by
  have hscope? : (db'.moveLine id moves excluded).scope? = db.scope? :=
    funext (h.scope?_moveLine id moves)
  cases hfold : (db.scopesListing id).foldlM
      (Exclusion.shiftScope (db.outcomeOf id ex before after moves excluded))
      (db'.moveLine id moves excluded) with
  | ok db₂ =>
    exact .inl ⟨db₂, rfl, before, after, db', h, rfl,
      moved_of_foldlM (db.nodup_scopesListing id) hfold⟩
  | error fault =>
    have hex : ∀ v ∈ db.scopesListing id, ∃ scope,
        (db'.moveLine id moves excluded).scope? v = some scope := by
      intro v hv
      obtain ⟨scope, hscope, -⟩ := mem_scopesListing.mp hv
      exact ⟨scope, hscope? ▸ hscope⟩
    obtain ⟨u, hu, scope, col, hscope, hcol⟩ :=
      foldlM_shiftScope_error (db.nodup_scopesListing id) hex hfold
    obtain ⟨scope', hscope', hmem⟩ := mem_scopesListing.mp hu
    rw [hscope?] at hscope
    cases hscope.symm.trans hscope'
    exact .inr ⟨fault, rfl, .shift h hscope hmem hcol⟩

namespace Forest

variable {id : StmtId} {st : Statement} {er ex : Expression} {alsoLine : Bool} (hf : db.Forest)
  (hs : db.stmt? id = some st) (hr : db.expr? st.root = some er) (he : db.expr? x = some ex)

include hf hs hr he

/-- A toggle is carried out, or shows which of its steps meets a fault. -/
theorem toggle_cases :
    (∃ o db', db.toggle cfg id x excluded alsoLine = .ok (o, db') ∧
      db.Toggled cfg id st x ex (movesLine st er x excluded alsoLine) excluded o db') ∨
    ∃ fault, db.toggle cfg id x excluded alsoLine = .error fault ∧
      db.Untoggled cfg id st x ex (movesLine st er x excluded alsoLine) excluded fault := by
  rw [toggle_steps, db.stmt_eq_ok_iff.mpr hs, ok_bind, hf.excludedAbove_eq he, ok_bind]
  rcases hf.computeTree_spec hs (fun n _ => PassMarks.counted_new _ n) with
    ⟨before, marks, db₁, hbefore, hscored⟩ | ⟨fault, hbefore, hunscored⟩
  swap
  · rw [hbefore]
    exact .inr ⟨fault, rfl, .before hunscored⟩
  rw [hbefore, ok_bind]
  dsimp only
  have hb := hscored.bare_setExcluded x excluded
  have hs₁ : (db₁.setExcluded x excluded).stmt? id = some st :=
    (hscored.stmt?_setExcluded x excluded id).trans hs
  rw [show (db₁.modifyExpr x fun e => { e with excluded }) = db₁.setExcluded x excluded from rfl]
  rcases (hf.congr hb).computeTree_spec hs₁ (fun n _ => PassMarks.counted_beginPass marks n) with
    ⟨after, marks', db₂, hafter, hscored'⟩ | ⟨fault, hafter, hunscored⟩
  swap
  · rw [hafter]
    exact .inr ⟨fault, rfl, .after hscored hunscored⟩
  have hturned : db.Turned cfg st.root x excluded before after db₂ :=
    ⟨db₁, _, _, _, _, hscored, hscored'⟩
  obtain ⟨er', hr', hbare⟩ := exists_expr?_of_bare hturned.bare hr
  have hmoves : movesLine st er' x excluded alsoLine = movesLine st er x excluded alsoLine := by
    rw [← movesLine_bare, hbare, movesLine_bare]
  rw [hafter, ok_bind]
  dsimp only
  rw [Exclusion.checkTotals, if_pos (hturned.total_eq hf hs), ok_bind, db₂.expr_eq_ok_iff.mpr hr',
    ok_bind, hmoves]
  generalize movesLine st er x excluded alsoLine = moves
  have hline : (if moves then db₂.modifyStmt id fun s => { s with lineExcluded := excluded } else
    db₂) = db₂.moveLine id moves excluded := rfl
  have hscopes : (db₂.moveLine id moves excluded).scopesListing id = db.scopesListing id :=
    scopesListing_congr ((scopes_moveLine db₂ id moves excluded).trans hturned.scopes) id
  rw [hline, hscopes]
  rcases hturned.shift_cases ex moves with ⟨db', hshift, htoggled⟩ | ⟨fault, hshift, hfail⟩
  · refine .inl ⟨_, db', ?_, htoggled⟩
    show ((db.scopesListing id).foldlM
      (Exclusion.shiftScope (db.outcomeOf id ex before after moves excluded)) _ >>= _) = _
    rw [hshift]
    rfl
  · refine .inr ⟨fault, ?_, hfail⟩
    show ((db.scopesListing id).foldlM
      (Exclusion.shiftScope (db.outcomeOf id ex before after moves excluded)) _ >>= _) = _
    rw [hshift]
    rfl

end Forest

end LogicCoverage.Database
