import LogicCoverage.Proofs.Capacity
import LogicCoverage.Proofs.Rewalk
import LogicCoverage.Proofs.Scopeless

/-!
# The statements of a scope as a set

The trees of statements are disjoint, so that none is in the way of another: each is renumbered from
the numbers it had at first, whichever others were scored before it, and a statement that is met
again is passed over. Hence the order in which a scope lists its statements, and how often, is
nothing to its score.
-/

namespace LogicCoverage

open Finset

namespace Underlining

variable {muted : ExprId → Bool} {u u' : Underlining} {visits : List (Bool × ExprId)}
  (h : ∀ y ∈ visits.map (·.2), u'.db.number? y = u.db.number? y)

include h

/-- The newcomers are decided by the numbers of the nodes that are visited. -/
theorem newcomers_congr : u'.newcomers muted visits = u.newcomers muted visits := by
  rw [newcomers, newcomers]
  congr 1
  refine List.filter_congr fun y hy => ?_
  obtain ⟨v, hv, rfl⟩ := List.mem_map.mp hy
  rw [isOpen, h v.2 (List.mem_map_of_mem (List.mem_of_mem_filter hv)), isOpen]

/-- What a number becomes is read off the number and the next one. -/
theorem renewed_congr (hnext : u'.next = u.next) {x : ExprId}
    (hx : u'.db.number? x = u.db.number? x) :
    u'.renewed muted visits x = u.renewed muted visits x := by
  rw [renewed, renewed, newcomers_congr h, hnext, hx]

end Underlining

namespace Database

variable {db db' d d' : Database} {cfg : ScoringConfig} {root x : ExprId} {er : Expression}
  {marks marks' : PassMarks} {counts : TreeCounts}

/-! ## Numbers of one tree -/

/-- The number that a node has when a tree was scored. -/
def renumbered (db : Database) (cfg : ScoringConfig) (root x : ExprId) : Option UInt32 :=
  Underlining.renewed db.muted ⟨db, Underlining.highest db (db.nodes root) + 1⟩
    (Underlining.visits (db.units cfg root)) x

/-- The numbers after a scoring are read off the database before it. -/
theorem Scored.number?_eq (h : db.Scored cfg root marks counts marks' db') (x : ExprId) :
    db'.number? x = db.renumbered cfg root x := by
  obtain ⟨⟨db, next⟩, u', rfl, rfl, hnext, hr⟩ := h.renewal
  have hfirst : next = Underlining.highest db (db.nodes root) + 1 := by
    have hsize := next.toNat_lt_size
    apply UInt32.toNat_inj.mp
    rw [UInt32.toNat_add]
    exact hnext.trans (Nat.mod_eq_of_lt (hnext ▸ hsize)).symm
  rw [hr.number?, hfirst]
  rfl

/-- The numbers of a tree are decided by what is scored and by those that it had. -/
theorem Forest.renumbered_congr (hf : db.Forest) (hr : db.expr? root = some er)
    (h : db'.unscored = db.unscored) (hn : ∀ y ∈ db.nodes root, db'.number? y = db.number? y)
    (hx : x ∈ db.nodes root) : db'.renumbered cfg root x = db.renumbered cfg root x := by
  have hb := bare_eq_of_unscored h
  have hmuted := hf.muted_eq_of_unscored h
  rw [renumbered, renumbered, hmuted, nodes_congr hb, Underlining.highest_congr hn,
    hf.units_congr hr hb fun y _ => congrFun hmuted y]
  apply Underlining.renewed_congr
  · exact fun y hy => hn y (hf.mem_nodes_of_visited hr hy)
  · rfl
  · exact hn x hx

/-- A node is as before if its number is. -/
theorem expr?_eq_of_unscored (h : db'.unscored = db.unscored) (hn : db'.number? x = db.number? x) :
    db'.expr? x = db.expr? x := by
  have hid : db'.unscored.expr? x = db.unscored.expr? x := by rw [h]
  rw [expr?_unscored, expr?_unscored] at hid
  rw [number?, number?] at hn
  cases hx : db.expr? x with
  | none =>
    rw [hx] at hid
    exact Option.map_eq_none_iff.mp hid
  | some e =>
    rw [hx] at hid hn
    obtain ⟨e', hx', he⟩ := Option.map_eq_some_iff.mp hid
    rw [hx'] at hn ⊢
    have hunderline : e'.underline = e.underline := hn
    calc some e'
      _ = some { e'.unscored with underline := e'.underline } := rfl
      _ = some { e.unscored with underline := e.underline } := by rw [he, hunderline]
      _ = some e := rfl

/-! ## Numbers of several trees -/

/-- There was room for the numbers of some statements' trees, and each tree has those that it gets
when it is scored first. -/
structure Renumbered (db : Database) (cfg : ScoringConfig) (done : Finset StmtId)
    (db' : Database) : Prop where
  roomy {id : StmtId} : id ∈ done → db.Roomy cfg id
  inside {id : StmtId} {st : Statement} {x : ExprId} : id ∈ done → db.stmt? id = some st →
    x ∈ db.nodes st.root → db'.number? x = db.renumbered cfg st.root x
  outside {x : ExprId} : (∀ id ∈ done, ∀ st, db.stmt? id = some st → x ∉ db.nodes st.root) →
    db'.number? x = db.number? x

namespace Renumbered

variable {done : Finset StmtId} {id : StmtId} {st : Statement}

theorem refl (db : Database) (cfg : ScoringConfig) : db.Renumbered cfg ∅ db where
  roomy hid := absurd hid (notMem_empty _)
  inside hid := absurd hid (notMem_empty _)
  outside _ := rfl

/-- The numbers are decided by the statements. -/
theorem number?_unique (h : db.Renumbered cfg done d) (h' : db.Renumbered cfg done d')
    (x : ExprId) : d'.number? x = d.number? x := by
  by_cases hx : ∃ id ∈ done, ∃ st, db.stmt? id = some st ∧ x ∈ db.nodes st.root
  · obtain ⟨id, hid, st, hs, hx⟩ := hx
    rw [h.inside hid hs hx, h'.inside hid hs hx]
  · have houtside : ∀ id ∈ done, ∀ st, db.stmt? id = some st → x ∉ db.nodes st.root :=
      fun id hid st hs hmem => hx ⟨id, hid, st, hs, hmem⟩
    rw [h.outside houtside, h'.outside houtside]

/-- One tree more is scored. -/
theorem insert (h : db.Renumbered cfg done d) (hf : db.Forest) (hd : d.unscored = db.unscored)
    (hs : db.stmt? id = some st) (hid : id ∉ done)
    (hscored : d.Scored cfg st.root marks counts marks' d') :
    db.Renumbered cfg (Insert.insert id done) d' := by
  have hb := bare_eq_of_unscored hd
  obtain ⟨er, her, -⟩ := hf.root hs
  obtain ⟨er', her', -⟩ := exists_expr?_of_bare hb her
  -- trees are disjoint: this one is as it was at first, and the others stay as they are
  have hbefore (x : ExprId) (hx : x ∈ db.nodes st.root) : d.number? x = db.number? x :=
    h.outside fun id' hid' st' hs' hx' => hid (hf.stmt_eq_of_mem_nodes hs hs' hx hx' ▸ hid')
  have hother {x : ExprId} (hx : x ∉ db.nodes st.root) : d'.number? x = d.number? x :=
    hscored.number?_of_notMem (hf.congr hb) her' (by rwa [nodes_congr hb])
  refine ⟨fun {id'} hid' => ?_, fun {id' st' x} hid' hs' hx => ?_, fun {x} hx => ?_⟩
  · rcases Finset.mem_insert.mp hid' with rfl | hid'
    · intro st' hs'
      cases hs.symm.trans hs'
      rw [← hf.crowded_congr her hb (fun x _ => congrFun (hf.muted_eq_of_unscored hd) x) hbefore]
      exact hscored.not_crowded (hf.congr hb) her'
    · exact h.roomy hid'
  · rcases Finset.mem_insert.mp hid' with rfl | hid'
    · cases hs.symm.trans hs'
      rw [hscored.number?_eq, hf.renumbered_congr her hd hbefore hx]
    · rw [hother fun hmem => hid (hf.stmt_eq_of_mem_nodes hs hs' hmem hx ▸ hid')]
      exact h.inside hid' hs' hx
  · rw [hother (hx id (mem_insert_self id done) st hs)]
    exact h.outside fun id' hid' => hx id' (mem_insert_of_mem hid')

end Renumbered

end Database

/-! ## Lists of statements -/

namespace Tallied

variable {db : Database} {cfg : ScoringConfig} {done : Finset StmtId} {s s' : ScopeScore}
  {id : StmtId} {st : Statement}

/-- A statement that is scored has got its numbers, and the others keep theirs. -/
theorem renumbered_of_step (h : Tallied db cfg done s) (hn : db.Renumbered cfg done s.db)
    (hf : db.Forest) (hs : db.stmt? id = some st) (hstep : ScopeScore.step cfg s id = .ok s') :
    db.Renumbered cfg (Insert.insert id done) s'.db := by
  rw [h.step_eq hf hs] at hstep
  split at hstep <;> rename_i hid
  · cases hstep
    rwa [insert_eq_of_mem hid]
  · obtain ⟨⟨counts, marks, db₁⟩, hcompute, hstep⟩ := bind_eq_ok_iff.mp hstep
    obtain ⟨comb, -, hstep⟩ := bind_eq_ok_iff.mp hstep
    obtain ⟨root, -, hstep⟩ := bind_eq_ok_iff.mp hstep
    obtain ⟨stat, -, hstep⟩ := bind_eq_ok_iff.mp hstep
    cases hstep
    obtain ⟨hf₁, hs₁, -, -, hm⟩ := h.before hf hs hid
    exact hn.insert hf (Database.unscored_of_rescorings h.runs).1 hs hid
      (hf₁.scored_of_computeTree hs₁ hm hcompute)

/-- Once all statements are scored, all have their numbers. -/
theorem renumbered_of_foldlM {stmts : List StmtId}
    (hex : ∀ id ∈ stmts, ∃ st, db.stmt? id = some st) (hf : db.Forest)
    (hfold : stmts.foldlM (ScopeScore.step cfg) ⟨db, .new db.exprs.size, .zero, .zero⟩ = .ok s) :
    Tallied db cfg stmts.toFinset s ∧ db.Renumbered cfg stmts.toFinset s.db := by
  have hrun := (Tallied.start db cfg).foldlM_induction hex hf (.refl db cfg)
    (fun h hn _ hs hstep => h.renumbered_of_step hn hf hs hstep) hfold
  rwa [empty_union] at hrun

end Tallied

namespace Database

variable {db : Database} {cfg : ScoringConfig} {s : ScopeScore} {u : ScopeId} {scope : Scope}
  {stmts stmts' : List StmtId}

/-- A statement that is met again in a pass is passed over. -/
theorem Forest.step_again (hf : db.Forest) (hex : ∀ id ∈ stmts, ∃ st, db.stmt? id = some st)
    (hfold : stmts.foldlM (ScopeScore.step cfg) ⟨db, .new db.exprs.size, .zero, .zero⟩ = .ok s)
    {id : StmtId} (hid : id ∈ stmts) : ScopeScore.step cfg s id = .ok s := by
  obtain ⟨st, hs⟩ := hex id hid
  have htallied := Tallied.foldlM_ok hex (Tallied.start db cfg) hf hfold
  rw [htallied.step_eq hf hs]
  exact if_pos (mem_union_right ∅ (List.mem_toFinset.mpr hid))

/-- Going through a list of the same statements ends in the same way. -/
theorem Forest.foldlM_relist (hf : db.Forest) (hex : ∀ id ∈ stmts, ∃ st, db.stmt? id = some st)
    (hset : ∀ id, id ∈ stmts' ↔ id ∈ stmts)
    (hfold : stmts.foldlM (ScopeScore.step cfg) ⟨db, .new db.exprs.size, .zero, .zero⟩ = .ok s) :
    ∃ s', stmts'.foldlM (ScopeScore.step cfg) ⟨db, .new db.exprs.size, .zero, .zero⟩ = .ok s' ∧
      s'.statistic = s.statistic ∧ ∀ x, s'.db.expr? x = s.db.expr? x := by
  have hex' : ∀ id ∈ stmts', ∃ st, db.stmt? id = some st := fun id hid => hex id ((hset id).mp hid)
  have htoFinset : stmts'.toFinset = stmts.toFinset := by
    ext id
    rw [List.mem_toFinset, List.mem_toFinset, hset]
  obtain ⟨htallied, hnumbers⟩ := Tallied.renumbered_of_foldlM hex hf hfold
  have hdone {id : StmtId} (hid : id ∈ stmts') : id ∈ stmts.toFinset :=
    List.mem_toFinset.mpr ((hset id).mp hid)
  have hfits (col : Column) : db.tallyOf cfg stmts' col < UInt32.size := by
    rw [tallyOf, htoFinset, ← htallied.tally col]
    exact s.statistic.tally_lt col
  obtain ⟨s', hfold'⟩ := hf.exists_foldlM_step hex' (fun id hid => htallied.scorable (hdone hid))
    hfits fun id hid => hnumbers.roomy (hdone hid)
  obtain ⟨htallied', hnumbers'⟩ := Tallied.renumbered_of_foldlM hex' hf hfold'
  rw [htoFinset] at htallied' hnumbers'
  refine ⟨s', hfold', Statistic.tally_inj ?_, fun x => ?_⟩
  · funext col
    rw [htallied'.tally, htallied.tally]
  · refine expr?_eq_of_unscored ?_ (hnumbers.number?_unique hnumbers' x)
    rw [(unscored_of_rescorings htallied'.runs).1, (unscored_of_rescorings htallied.runs).1]

/-! ## Scopes -/

/-- The scope lists other statements. -/
def relist (db : Database) (u : ScopeId) (stmts : List StmtId) : Database :=
  db.modifyScope u fun scope => { scope with statements := stmts }

theorem scope?_relist (hu : db.scope? u = some scope) (stmts : List StmtId) :
    (db.relist u stmts).scope? u = some { scope with statements := stmts } := by
  rw [relist, scope?_modifyScope, if_pos rfl, hu]
  rfl

/-- What a scope lists is nothing to the scoring of trees. -/
theorem foldlM_step_relist (u : ScopeId) (stmts stmts' : List StmtId) :
    stmts'.foldlM (ScopeScore.step cfg)
        ⟨db.relist u stmts, .new (db.relist u stmts).exprs.size, .zero, .zero⟩ =
      (stmts'.foldlM (ScopeScore.step cfg) ⟨db, .new db.exprs.size, .zero, .zero⟩).map
        fun s => s.withScopes (db.relist u stmts).scopes :=
  foldlM_eq_map (fun s : ScopeScore => s.withScopes (db.relist u stmts).scopes)
    (ScopeScore.step_withScopes cfg (db.relist u stmts).scopes) stmts'
    ⟨db, .new db.exprs.size, .zero, .zero⟩

/-- With another list in its place, the score of a scope comes from going through that list. -/
theorem recalcScope_relist_ok_iff (hu : db.scope? u = some scope) {stat : Statistic}
    {d : Database} :
    (db.relist u stmts).recalcScope u cfg = .ok (stat, d) ↔
      ∃ s, stmts.foldlM (ScopeScore.step cfg) ⟨db, .new db.exprs.size, .zero, .zero⟩ = .ok s ∧
        s.statistic = stat ∧ (s.db.withScopes (db.relist u stmts).scopes).setStat u stat = d := by
  rw [recalcScope_ok_iff (scope?_relist hu stmts), foldlM_step_relist]
  constructor
  · rintro ⟨s', hfold, rfl, rfl⟩
    cases hs : stmts.foldlM (ScopeScore.step cfg) ⟨db, .new db.exprs.size, .zero, .zero⟩ with
    | error fault =>
      rw [hs] at hfold
      cases hfold
    | ok s =>
      rw [hs] at hfold
      cases hfold
      exact ⟨s, rfl, rfl, rfl⟩
  · rintro ⟨s, hs, rfl, rfl⟩
    exact ⟨s.withScopes (db.relist u stmts).scopes, by rw [hs]; rfl, rfl, rfl⟩

/-- The score of a scope of a consistent database depends on the set of the statements that it lists.
With another list of the same statements, a recalculation returns just if it did, with the same
statistic, and leaves the same nodes with the same numbers. In one pass, a statement that is met
again changes neither counters nor marks nor numbers, and a tree that is scored twice counts nothing
the second time, whatever was marked before. -/
theorem recalcScope_relist (hdb : db.check = .ok ()) (hu : db.scope? u = some scope)
    (hset : ∀ id, id ∈ stmts ↔ id ∈ scope.statements) (cfg : ScoringConfig) :
    ((∃ result, (db.relist u stmts).recalcScope u cfg = .ok result) ↔
      ∃ result, db.recalcScope u cfg = .ok result) ∧
    (∀ stat stat' d d', db.recalcScope u cfg = .ok (stat, d) →
      (db.relist u stmts).recalcScope u cfg = .ok (stat', d') →
        stat' = stat ∧ ∀ x, d'.expr? x = d.expr? x) ∧
    (∀ (met : List StmtId) s, (∀ id ∈ met, ∃ st, db.stmt? id = some st) →
      met.foldlM (ScopeScore.step cfg) ⟨db, .new db.exprs.size, .zero, .zero⟩ = .ok s →
        ∀ id ∈ met, ScopeScore.step cfg s id = .ok s) ∧
    ∀ id st marks counts marks' d, db.stmt? id = some st →
      db.computeTree st.root cfg marks = .ok (counts, marks', d) →
        d.computeTree st.root cfg marks' = .ok (.zero, marks', d) := by
  have hf := forest_of_check hdb
  have hex : ∀ id ∈ scope.statements, ∃ st, db.stmt? id = some st :=
    fun id hid => hf.statement hu hid
  have hex' : ∀ id ∈ stmts, ∃ st, db.stmt? id = some st := fun id hid => hex id ((hset id).mp hid)
  refine ⟨⟨?_, ?_⟩, ?_, ?_, ?_⟩
  -- either list can be gone through if the other one can
  · rintro ⟨⟨stat, d⟩, hrecalc⟩
    obtain ⟨s, hfold, -, -⟩ := (recalcScope_relist_ok_iff hu).mp hrecalc
    obtain ⟨s', hfold', -, -⟩ := hf.foldlM_relist hex' (fun id => (hset id).symm) hfold
    exact ⟨_, (recalcScope_ok_iff hu).mpr ⟨s', hfold', rfl, rfl⟩⟩
  · rintro ⟨⟨stat, d⟩, hrecalc⟩
    obtain ⟨s, hfold, -, -⟩ := (recalcScope_ok_iff hu).mp hrecalc
    obtain ⟨s', hfold', -, -⟩ := hf.foldlM_relist hex hset hfold
    exact ⟨_, (recalcScope_relist_ok_iff hu).mpr ⟨s', hfold', rfl, rfl⟩⟩
  · intro stat stat' d d' hrecalc hrecalc'
    obtain ⟨s, hfold, rfl, rfl⟩ := (recalcScope_ok_iff hu).mp hrecalc
    obtain ⟨s', hfold', rfl, rfl⟩ := (recalcScope_relist_ok_iff hu).mp hrecalc'
    obtain ⟨_, hagain, hstat, hnodes⟩ := hf.foldlM_relist hex hset hfold
    cases hfold'.symm.trans hagain
    exact ⟨hstat, hnodes⟩
  · exact fun met s hmet hfold id hid => hf.step_again hmet hfold hid
  · exact fun id st marks counts marks' d hs hrun => hf.computeTree_again hs hrun

/-- Two statements, one of which is listed twice: an edge that did not fire, and an assignment's
target, which is not scored and stands on a line that ran. -/
def edgeAndTarget : Database where
  exprs := #[
    { Expression.new .posEdge 1 3 with parent := .stmt ⟨0⟩ },
    { Expression.new .signal 1 4 with parent := .stmt ⟨1⟩, lhs := true, execCount := 2 }]
  stmts := #[⟨⟨0⟩, false⟩, ⟨⟨1⟩, false⟩]
  scopes := #[⟨"top", .moduleScope, [⟨0⟩, ⟨1⟩, ⟨0⟩], [], .zero⟩]

theorem recalcScope_relist_edgeAndTarget :
    edgeAndTarget.check = .ok () ∧
      (edgeAndTarget.recalcScope ⟨0⟩ .default).map (·.1) = .ok ⟨0, 1, 0, 1, 2, 0⟩ ∧
      ∃ d, (edgeAndTarget.relist ⟨0⟩ [⟨1⟩, ⟨1⟩, ⟨0⟩]).recalcScope ⟨0⟩ .default =
        .ok (⟨0, 1, 0, 1, 2, 0⟩, d) ∧ d.number? ⟨0⟩ = some 1 := by
  have hcheck : edgeAndTarget.check = .ok () := by decide
  have hresult : (edgeAndTarget.recalcScope ⟨0⟩ .default).map
      (fun result => (result.1, result.2.number? ⟨0⟩)) = .ok (⟨0, 1, 0, 1, 2, 0⟩, some 1) := by
    decide +kernel
  have hset (id : StmtId) : id ∈ ([⟨1⟩, ⟨1⟩, ⟨0⟩] : List StmtId) ↔
      id ∈ ([⟨0⟩, ⟨1⟩, ⟨0⟩] : List StmtId) := by
    simp only [List.mem_cons, List.not_mem_nil, or_false]
    constructor <;> rintro (rfl | rfl | rfl) <;> simp
  obtain ⟨hiff, hsame, -, -⟩ := recalcScope_relist hcheck
    (show edgeAndTarget.scope? ⟨0⟩ = some _ by rfl) hset .default
  cases hrecalc : edgeAndTarget.recalcScope ⟨0⟩ .default with
  | error refusal =>
    rw [hrecalc] at hresult
    cases hresult
  | ok result =>
    obtain ⟨stat, d⟩ := result
    rw [hrecalc] at hresult
    obtain ⟨hstat, hnumber⟩ := Prod.mk.inj (Except.ok.inj hresult)
    obtain ⟨⟨stat', d'⟩, hrecalc'⟩ := hiff.mpr ⟨_, hrecalc⟩
    obtain ⟨rfl, hnodes⟩ := hsame stat stat' d d' hrecalc hrecalc'
    refine ⟨hcheck, congrArg Except.ok hstat, d', ?_, ?_⟩
    · rw [hrecalc', ← hstat]
    · rw [← hnumber, number?, hnodes]
      rfl

end Database

end LogicCoverage
