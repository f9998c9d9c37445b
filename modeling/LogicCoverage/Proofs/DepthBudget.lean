import LogicCoverage.Proofs.Capacity
import LogicCoverage.Proofs.Gaps

/-!
# The depth budget

A depth budget cuts a tree at a level. Levels are counted here along the nodes above a node: an edge
leads one level down unless both its ends are gates of one family. The depth that scoring carries
along and the depth that is found from the node alone are both this number, so that a smaller budget
leaves out the nodes below it and changes nothing about the others.
-/

namespace LogicCoverage

/-- The same settings with a budget. -/
def ScoringConfig.upTo (cfg : ScoringConfig) (budget : UInt32) : ScoringConfig :=
  { cfg with depthBudget := some budget }

/-- A budget that is no larger than that of the settings, if they have one. -/
def ScoringConfig.Admits (cfg : ScoringConfig) (budget : UInt32) : Prop :=
  ∀ limit, cfg.depthBudget = some limit → budget ≤ limit

/-- What a smaller budget reaches is reached. -/
theorem ScoringConfig.reaches_of_admits {cfg : ScoringConfig} {budget depth : UInt32}
    (h : cfg.Admits budget) (hdepth : depth ≤ budget) : cfg.reaches depth = true := by
  rw [reaches]
  cases hlimit : cfg.depthBudget with
  | none => rfl
  | some limit => exact decide_eq_true (UInt32.le_trans hdepth (h limit hlimit))

namespace Database

variable {db : Database} {cfg : ScoringConfig} {budget : UInt32}

/-! ## Levels -/

/-- The edge between a node and its parent joins two gates of one family. -/
def sharesFamily (db : Database) (child parent : ExprId) : Bool :=
  match db.expr? parent, db.expr? child with
  | some p, some c => p.op.sameFamily c.op
  | _, _ => false

/-- The edges of a path that lead from one family to another, or join nodes that are no gates. -/
def crossings (db : Database) : List ExprId → Nat
  | child :: parent :: rest =>
    (if db.sharesFamily child parent then 0 else 1) + db.crossings (parent :: rest)
  | _ => 0

/-- The crossings between a node and the top of its tree. -/
def level (db : Database) (id : ExprId) : Nat :=
  db.crossings (id :: Checked.getD (db.ancestors id) [])

/-- A node lies within a budget. -/
def Within (db : Database) (budget : UInt32) (id : ExprId) : Prop := db.level id ≤ budget.toNat

instance (budget : UInt32) (id : ExprId) : Decidable (db.Within budget id) :=
  inferInstanceAs (Decidable (_ ≤ _))

namespace Forest

variable (hf : db.Forest) {id : ExprId} {e : Expression}

include hf

/-- The nodes above a node can be listed. -/
theorem ancestors_eq (h : db.expr? id = some e) :
    db.ancestors id = .ok (Checked.getD (db.ancestors id) []) := by
  suffices hex : ∃ l, db.ancestors id = .ok l by
    obtain ⟨l, hl⟩ := hex
    rw [hl, Checked.getD]
  refine hf.induction_up (P := fun id => ∃ l, db.ancestors id = .ok l) (fun id e he ih => ?_) h
  by_cases hp : ∃ p, e.parent = .expr p
  · obtain ⟨p, hp⟩ := hp
    obtain ⟨l, hl⟩ := ih p hp
    exact ⟨p :: l, by rw [hf.ancestors_expr he hp, hl]; rfl⟩
  · exact ⟨[], ancestors_top he (parentExpr?_eq_none fun p h => hp ⟨p, h⟩)⟩

/-- The level of a child: that of its parent, or the next. -/
theorem level_expr {p : ExprId} {ep : Expression} (hep : db.expr? p = some ep)
    (h : db.expr? id = some e) (hp : e.parent = .expr p) :
    db.level id = (if ep.op.sameFamily e.op then 0 else 1) + db.level p := by
  have habove := hf.ancestors_eq hep
  have hpath : db.ancestors id = .ok (p :: Checked.getD (db.ancestors p) []) := by
    rw [hf.ancestors_expr h hp, habove]
    rfl
  have hshares : db.sharesFamily id p = ep.op.sameFamily e.op := by
    rw [sharesFamily, hep, h]
  rw [level, hpath, Checked.getD, crossings, hshares, level]

/-- Depths are levels. -/
theorem toNat_depth (h : db.expr? id = some e) : (db.depth id).toNat = db.level id := by
  refine hf.induction_up (P := fun id => (db.depth id).toNat = db.level id) (fun id e he ih => ?_) h
  by_cases hp : ∃ p, e.parent = .expr p
  · obtain ⟨p, hp⟩ := hp
    obtain ⟨ep, hep, -⟩ := hf.parent he hp
    have hstep := hf.childLevel_depth hep he hp
    rw [hf.level_expr hep he hp, ← ih p hp]
    rw [childLevel] at hstep
    split at hstep
    · rw [if_pos ‹_›, ← Except.ok.inj hstep, Nat.zero_add]
    · rw [if_neg ‹_›, Counter.addOr_eq_ok_iff.mp hstep, Nat.add_comm]
  · have htop : e.parentExpr? = none := parentExpr?_eq_none fun p h => hp ⟨p, h⟩
    rw [depth_top he htop, level, ancestors_top he htop]
    rfl

/-- A node is within the budget just if its level is. -/
theorem within_iff (h : db.expr? id = some e) : db.Within budget id ↔ db.depth id ≤ budget := by
  rw [Within, ← hf.toNat_depth h, UInt32.le_iff_toNat_le]

end Forest

/-! ## Points within a budget -/

section Cut

variable (hf : db.Forest) (hb : cfg.Admits budget) {id root : ExprId} {e er : Expression}

include hf hb

/-- Within the smaller budget nodes are scored as before, and below it not at all. -/
theorem Forest.isScored_upTo (h : db.expr? id = some e) :
    (db.place id).isScored e (cfg.upTo budget) =
      (decide (db.Within budget id) && (db.place id).isScored e cfg) := by
  have hcut : (cfg.upTo budget).reaches (db.depth id) = decide (db.Within budget id) :=
    decide_eq_decide.mpr (hf.within_iff h).symm
  rw [Placement.isScored, Placement.isScored, place, hcut]
  by_cases hw : db.Within budget id
  · rw [ScoringConfig.reaches_of_admits hb ((hf.within_iff h).mp hw), decide_eq_true hw]
    simp
  · rw [decide_eq_false hw]
    simp

/-- A smaller budget leaves out nodes as a whole, and all others alone. -/
theorem Forest.scoredPoints_upTo (h : db.expr? id = some e) :
    db.scoredPoints id (cfg.upTo budget) =
      if db.Within budget id then db.scoredPoints id cfg else .ok none := by
  rw [hf.scoredPoints_eq h, hf.scoredPoints_eq h, pointsAt, pointsAt, hf.isScored_upTo hb h]
  by_cases hw : db.Within budget id
  · rw [decide_eq_true hw, Bool.true_and, if_pos hw]
    rfl
  · rw [decide_eq_false hw, Bool.false_and, if_neg hw]
    rfl

/-- Likewise for the points. -/
theorem Forest.points_upTo (h : db.expr? id = some e) :
    db.points (cfg.upTo budget) id = if db.Within budget id then db.points cfg id else [] := by
  rw [points, hf.scoredPoints_upTo hb h]
  split
  · rfl
  · rfl

/-- What can be scored can be scored under a smaller budget. -/
theorem Forest.scorable_upTo (h : db.expr? id = some e) (hs : db.Scorable cfg id) :
    db.Scorable (cfg.upTo budget) id := by
  rw [Scorable, hf.scoredPoints_upTo hb h]
  split
  · exact hs
  · exact ⟨none, rfl⟩

/-! ## Trees within a budget -/

/-- A smaller budget leaves out points, and keeps the order of the others. -/
theorem Forest.treePoints_upTo (h : db.expr? root = some er) :
    (db.treePoints (cfg.upTo budget) root).Sublist (db.treePoints cfg root) := by
  rw [treePoints, treePoints, units, units, ← List.flatMap_def, ← List.flatMap_def]
  refine List.Sublist.flatMap_right _ fun n hn => ?_
  obtain ⟨en, hen⟩ := hf.expr?_of_mem_nodes h hn
  rw [hf.points_upTo hb hen]
  split
  · exact List.Sublist.refl _
  · exact List.nil_sublist _

/-- A smaller budget leaves out the rows of nodes beyond it. -/
theorem Forest.gaps_upTo (h : db.expr? id = some e) :
    db.gaps (cfg.upTo budget) id =
      (db.gaps cfg id).filter fun row => db.Within budget row.expr := by
  have hexpr (row : Row) (hrow : row ∈ db.gaps cfg id) : row.expr = id := by
    obtain ⟨p, -, -, rfl⟩ := mem_gaps.mp hrow
    rfl
  rw [gaps, hf.points_upTo hb h]
  split <;> rename_i hw
  · refine (List.filter_eq_self.mpr fun row hrow => ?_).symm
    rw [hexpr row hrow]
    exact decide_eq_true hw
  · refine (List.filter_eq_nil_iff.mpr fun row hrow => ?_).symm
    rwa [hexpr row hrow, decide_eq_true_eq]

/-- The rows of a tree within the budget are the rows of the nodes that are. -/
theorem Forest.treeGaps_upTo (h : db.expr? root = some er) :
    db.treeGaps (cfg.upTo budget) root =
      (db.treeGaps cfg root).filter fun row => db.Within budget row.expr := by
  rw [treeGaps, treeGaps, List.filter_flatMap]
  refine List.flatMap_congr fun n hn => ?_
  obtain ⟨en, hen⟩ := hf.expr?_of_mem_nodes h hn
  exact hf.gaps_upTo hb hen

/-- Fewer points leave more room for numbers. -/
theorem Forest.not_crowded_upTo (h : db.expr? root = some er) (hc : ¬ db.Crowded cfg root) :
    ¬ db.Crowded (cfg.upTo budget) root := by
  have hle : (db.awaiting (cfg.upTo budget) root).length ≤ (db.awaiting cfg root).length := by
    rw [awaiting, awaiting, ← List.countP_eq_length_filter, ← List.countP_eq_length_filter]
    refine List.countP_mono_left fun x _ hx => ?_
    simp only [awaits, sites, Bool.and_eq_true, List.any_eq_true] at hx ⊢
    refine ⟨hx.1, ?_⟩
    obtain ⟨n, hn, hpoints⟩ := hx.2
    obtain ⟨en, hen⟩ := hf.expr?_of_mem_nodes h hn
    rw [hf.points_upTo hb hen] at hpoints
    split at hpoints
    · exact ⟨n, hn, hpoints⟩
    · simp at hpoints
  rw [Crowded] at hc ⊢
  omega

variable {stmt : StmtId} {st : Statement} (hs : db.stmt? stmt = some st)

include hs

/-- A tree that lies within the budget is scored as before. -/
theorem Forest.computeTree_upTo_of_within (hw : ∀ n ∈ db.nodes st.root, db.Within budget n)
    (marks : PassMarks) :
    db.computeTree st.root (cfg.upTo budget) marks = db.computeTree st.root cfg marks := by
  obtain ⟨er, her, -⟩ := hf.root hs
  have hpass (s : TreeScore) :
      (db.nodes st.root).foldlM (db.visitNode (TreeScore.step db (cfg.upTo budget))) s =
        (db.nodes st.root).foldlM (db.visitNode (TreeScore.step db cfg)) s := by
    refine foldlM_congr fun n hn s => ?_
    obtain ⟨en, hen⟩ := hf.expr?_of_mem_nodes her hn
    rw [hf.visitNode_eq hen, hf.visitNode_eq hen, TreeScore.step, TreeScore.step,
      hf.isScored_upTo hb hen, decide_eq_true (hw n hn), Bool.true_and]
    rfl
  rw [hf.computeTree_eq hs, hf.computeTree_eq hs]
  simp only [hpass]

/-- Where the tree can be scored with fresh marks, it can be scored within the smaller budget, and
no count is larger. -/
theorem Forest.exists_computeTree_upTo {marks marks' : PassMarks}
    (hm : ∀ n ∈ db.nodes st.root, marks.counted n = false) {counts : TreeCounts} {db' : Database}
    (h : db.computeTree st.root cfg marks = .ok (counts, marks', db')) :
    ∃ counts₁ marks₁ db₁,
      db.computeTree st.root (cfg.upTo budget) marks = .ok (counts₁, marks₁, db₁) ∧
        counts₁.hit ≤ counts.hit ∧ counts₁.total ≤ counts.total ∧
          counts₁.excluded ≤ counts.excluded := by
  obtain ⟨er, her, -⟩ := hf.root hs
  have hscored := hf.scored_of_computeTree hs hm h
  have hpoints := hf.treePoints_upTo hb her
  cases hcompute : db.computeTree st.root (cfg.upTo budget) marks with
  | ok result =>
    obtain ⟨counts₁, marks₁, db₁⟩ := result
    have hscored₁ := hf.scored_of_computeTree hs hm hcompute
    refine ⟨counts₁, marks₁, db₁, rfl, ?_, ?_, ?_⟩ <;> rw [UInt32.le_iff_toNat_le]
    · rw [hscored₁.counts.hit, hscored.counts.hit]
      exact hpoints.countP_le
    · rw [hscored₁.counts.total, hscored.counts.total]
      exact hpoints.length_le
    · rw [hscored₁.counts.excluded, hscored.counts.excluded]
      exact hpoints.countP_le
  | error fault =>
    have hfault := hf.unscored_of_computeTree hs hm hcompute
    have hscorable : ∀ n ∈ db.nodes st.root, db.Scorable (cfg.upTo budget) n := by
      intro n hn
      obtain ⟨en, hen⟩ := hf.expr?_of_mem_nodes her hn
      exact hf.scorable_upTo hb hen (hscored.scorable n hn)
    have hfit : (db.treePoints (cfg.upTo budget) st.root).length < UInt32.size := by
      refine Nat.lt_of_le_of_lt hpoints.length_le ?_
      rw [← hscored.counts.total]
      exact counts.total.toNat_lt_size
    exact absurd (hfault.exhausted hscorable hfit).2
      (hf.not_crowded_upTo hb her (hscored.not_crowded hf her))

end Cut

/-- A report on a statement comes about just if its nodes' points can be told. -/
theorem Forest.statementDetail_eq_ok_iff (hf : db.Forest) {stmt : StmtId} {st : Statement}
    (hs : db.stmt? stmt = some st) {rows : List Row} :
    db.statementDetail stmt cfg = .ok rows ↔
      (∀ n ∈ db.nodes st.root, db.Scorable cfg n) ∧ db.treeGaps cfg st.root = rows := by
  constructor
  · intro h
    have hscorable : ∀ n ∈ db.nodes st.root, db.Scorable cfg n := by
      intro n hn
      rw [hf.statementDetail_eq_mapM hs] at h
      cases hrows : (db.nodes st.root).mapM fun n => db.missingDetail n cfg with
      | error fault =>
        rw [hrows] at h
        cases h
      | ok each =>
        obtain ⟨found, hfound⟩ := exists_of_mapM_ok hrows n hn
        obtain ⟨points, hpoints, -⟩ := bind_eq_ok_iff.mp hfound
        exact ⟨points, hpoints⟩
    refine ⟨hscorable, ?_⟩
    rw [hf.statementDetail_eq hs hscorable] at h
    exact Except.ok.inj h
  · rintro ⟨hscorable, rfl⟩
    exact hf.statementDetail_eq hs hscorable

/-- A smaller depth budget is a cut. In a consistent database, let a budget be no larger than that of
the settings, which may have none. Where a report on a statement comes about, it does so within the
budget, with the rows of the nodes that lie at most so many crossings below the root. Where a
statement's tree is scored with fresh marks, it is scored within the budget and no count is larger;
if the whole tree lies within the budget, the result is the same, numbers included. -/
theorem depthBudget_cut (hdb : db.check = .ok ()) {stmt : StmtId} {st : Statement}
    (hs : db.stmt? stmt = some st) (hb : cfg.Admits budget) :
    (∀ rows, db.statementDetail stmt cfg = .ok rows →
      db.statementDetail stmt (cfg.upTo budget) =
        .ok (rows.filter fun row => db.level row.expr ≤ budget.toNat)) ∧
    ∀ marks counts marks' db', (∀ x, marks.counted x = false) →
      db.computeTree st.root cfg marks = .ok (counts, marks', db') →
        (∃ rows, db.statementDetail stmt cfg = .ok rows) ∧
        (∃ counts₁ marks₁ db₁,
          db.computeTree st.root (cfg.upTo budget) marks = .ok (counts₁, marks₁, db₁) ∧
            counts₁.hit ≤ counts.hit ∧ counts₁.total ≤ counts.total ∧
              counts₁.excluded ≤ counts.excluded) ∧
        ∀ nodes, db.subtree st.root = .ok nodes → (∀ n ∈ nodes, db.level n ≤ budget.toNat) →
          db.computeTree st.root (cfg.upTo budget) marks = .ok (counts, marks', db') := by
  have hf := forest_of_check hdb
  obtain ⟨er, her, -⟩ := hf.root hs
  refine ⟨fun rows hrows => ?_, fun marks counts marks' db' hm h => ⟨?_, ?_, ?_⟩⟩
  · obtain ⟨hscorable, rfl⟩ := (hf.statementDetail_eq_ok_iff hs).mp hrows
    refine (hf.statementDetail_eq_ok_iff hs).mpr ⟨fun n hn => ?_, hf.treeGaps_upTo hb her⟩
    obtain ⟨en, hen⟩ := hf.expr?_of_mem_nodes her hn
    exact hf.scorable_upTo hb hen (hscorable n hn)
  · have hscored := hf.scored_of_computeTree hs (fun n _ => hm n) h
    exact ⟨_, hf.statementDetail_eq hs hscored.scorable⟩
  · exact hf.exists_computeTree_upTo hb hs (fun n _ => hm n) h
  · intro nodes hnodes hlevel
    cases (hf.subtree_eq her).symm.trans hnodes
    rw [hf.computeTree_upTo_of_within hb hs hlevel, h]

/-- The OR gate lies below the budget; the chain and its operands' rows are above it. -/
theorem depthBudget_cut_mixedGates :
    mixedGates.check = .ok () ∧ mixedGates.stmt? ⟨0⟩ = some ⟨⟨6⟩, false⟩ ∧
      ScoringConfig.default.Admits 0 ∧ (∀ x, (PassMarks.new 7).counted x = false) ∧
      (mixedGates.statementDetail ⟨0⟩ .default).map (List.map fun row => (row.expr, row.site)) =
        .ok [(⟨5⟩, ⟨5⟩), (⟨5⟩, ⟨5⟩), (⟨5⟩, ⟨5⟩), (⟨6⟩, ⟨5⟩), (⟨6⟩, ⟨6⟩)] ∧
      (mixedGates.computeTree ⟨6⟩ .default (.new 7)).map (·.1) = .ok ⟨2, 7, 1⟩ ∧
      (∃ rows, mixedGates.statementDetail ⟨0⟩ (ScoringConfig.default.upTo 0) = .ok rows ∧
        rows.map (fun row => (row.expr, row.site)) = [(⟨6⟩, ⟨5⟩), (⟨6⟩, ⟨6⟩)]) ∧
      ∃ counts marks db,
        mixedGates.computeTree ⟨6⟩ (ScoringConfig.default.upTo 0) (.new 7) =
          .ok (counts, marks, db) ∧ counts.total ≤ 7 := by
  have hcheck : mixedGates.check = .ok () := by decide
  have hs : mixedGates.stmt? ⟨0⟩ = some ⟨⟨6⟩, false⟩ := by decide
  have hb : ScoringConfig.default.Admits 0 := nofun
  have hrows : (mixedGates.statementDetail ⟨0⟩ .default).map
      (List.map fun row => (row.expr, row.site)) =
        .ok [(⟨5⟩, ⟨5⟩), (⟨5⟩, ⟨5⟩), (⟨5⟩, ⟨5⟩), (⟨6⟩, ⟨5⟩), (⟨6⟩, ⟨6⟩)] := by
    decide +kernel
  have hcounts : (mixedGates.computeTree ⟨6⟩ .default (.new 7)).map (·.1) = .ok ⟨2, 7, 1⟩ := by
    decide +kernel
  have hfew : (mixedGates.statementDetail ⟨0⟩ (ScoringConfig.default.upTo 0)).map
      (List.map fun row => (row.expr, row.site)) = .ok [(⟨6⟩, ⟨5⟩), (⟨6⟩, ⟨6⟩)] := by
    decide +kernel
  obtain ⟨hcut, hscore⟩ := depthBudget_cut hcheck hs hb
  refine ⟨hcheck, hs, hb, PassMarks.counted_new 7, hrows, hcounts, ?_, ?_⟩
  · cases h : mixedGates.statementDetail ⟨0⟩ .default with
    | error fault =>
      rw [h] at hrows
      cases hrows
    | ok rows =>
      have hwithin := hcut rows h
      rw [hwithin] at hfew
      exact ⟨_, hwithin, Except.ok.inj hfew⟩
  · cases h : mixedGates.computeTree ⟨6⟩ .default (.new 7) with
    | error fault =>
      rw [h] at hcounts
      cases hcounts
    | ok result =>
      obtain ⟨counts, marks, db⟩ := result
      obtain ⟨-, ⟨counts₁, marks₁, db₁, hrun, -, htotal, -⟩, -⟩ :=
        hscore _ _ _ _ (PassMarks.counted_new 7) h
      rw [h] at hcounts
      cases hcounts
      exact ⟨counts₁, marks₁, db₁, hrun, htotal⟩

end Database

end LogicCoverage
