import LogicCoverage.Proofs.Gaps
import Mathlib.Algebra.GroupWithZero.Nat

/-!
# The walk and the single nodes agree

The counts of a tree are the sums over its nodes of the points that each node is scored on. They
depend on nothing that a scoring writes, and what they leave uncovered is what the rows report.
-/

namespace LogicCoverage.Database

variable {db : Database} {cfg : ScoringConfig}

/-- The points of all nodes of a tree, asked for one by one. -/
theorem mapM_scoredPoints {nodes : List ExprId} (h : ∀ n ∈ nodes, db.Scorable cfg n) :
    ∃ points, nodes.mapM (fun n => db.scoredPoints n cfg) = .ok points ∧
      points.map (·.getD []) = nodes.map (db.points cfg) := by
  have heq : nodes.mapM (fun n => db.scoredPoints n cfg) =
      .ok (nodes.map fun n => Checked.getD (db.scoredPoints n cfg) none) := by
    apply mapM_eq_ok_map
    intro n hn
    obtain ⟨points, hpoints⟩ := h n hn
    rw [hpoints, Checked.getD]
  refine ⟨_, heq, ?_⟩
  rw [List.map_map]
  rfl

/-- Where all points are listed, every node can be scored. -/
theorem scorable_of_mapM {nodes : List ExprId} {points : List (Option (List Point))}
    (h : nodes.mapM (fun n => db.scoredPoints n cfg) = .ok points) :
    ∀ n ∈ nodes, db.Scorable cfg n := exists_of_mapM_ok h

/-- The points of a tree are those of its nodes, asked for one by one. -/
theorem treePoints_of_mapM {root : ExprId} {points : List (Option (List Point))}
    (h : (db.nodes root).mapM (fun n => db.scoredPoints n cfg) = .ok points) :
    db.treePoints cfg root = (points.map (·.getD [])).flatten := by
  obtain ⟨points', hpoints', hunits⟩ := mapM_scoredPoints (scorable_of_mapM h)
  cases h.symm.trans hpoints'
  rw [hunits]
  rfl

namespace Scored

variable {stmt : StmtId} {st : Statement} {marks marks' : PassMarks} {counts : TreeCounts}
  {db₁ : Database} (h : db.Scored cfg st.root marks counts marks' db₁)

include h

/-- The counts are the sums over the nodes of what each is scored on. -/
theorem sums : ∃ points, (db.nodes st.root).mapM (fun n => db.scoredPoints n cfg) = .ok points ∧
    counts.total.toNat = (points.map fun o => (o.getD []).length).sum ∧
    counts.hit.toNat =
      (points.map fun o => (o.getD []).countP fun p => p.hit || p.excluded).sum ∧
    counts.excluded.toNat =
      (points.map fun o => (o.getD []).countP fun p => p.excluded && !p.hit).sum := by
  obtain ⟨points, hpoints, -⟩ := mapM_scoredPoints h.scorable
  have hcounts := h.counts
  rw [treePoints_of_mapM hpoints] at hcounts
  refine ⟨points, hpoints, ?_, ?_, ?_⟩
  · rw [hcounts.total, List.length_flatten, List.map_map]
    rfl
  · rw [hcounts.hit, List.countP_flatten, List.map_map]
    rfl
  · rw [hcounts.excluded, List.countP_flatten, List.map_map]
    rfl

/-- No tree has more hits than points. -/
theorem hit_le : counts.hit ≤ counts.total := by
  rw [UInt32.le_iff_toNat_le, h.counts.hit, h.counts.total]
  exact List.countP_le_length

/-- All that is excluded counts as hit. -/
theorem excluded_le : counts.excluded ≤ counts.hit := by
  rw [UInt32.le_iff_toNat_le, h.counts.excluded, h.counts.hit]
  exact Point.countP_waived_le _

variable (hf : db.Forest) (hs : db.stmt? stmt = some st) {db₂ : Database}
  (h₂ : db₂.unscored = db.unscored)

include hf hs h₂

/-- What is not covered is reported, whatever the numbers and the statistics. -/
theorem length_rows : ∃ rows, db₂.statementDetail stmt cfg = .ok rows ∧
    rows.length = counts.total.toNat - counts.hit.toNat := by
  obtain ⟨er, her, -⟩ := hf.root hs
  have hb := bare_eq_of_unscored h₂
  have hs₂ : db₂.stmt? stmt = some st := by
    rwa [stmt?_eq_of_unscored h₂]
  refine ⟨_, (hf.congr hb).statementDetail_eq hs₂ ?_, ?_⟩
  · exact hf.scorable_nodes_congr her hb h.scorable
  · have hlen : (db₂.treeGaps cfg st.root).length + _ = _ := Forest.length_treeGaps st.root
    rw [hf.treePoints_congr her hb fun x _ => congrFun (hf.muted_eq_of_unscored h₂) x,
      ← h.counts.hit, ← h.counts.total] at hlen
    omega

/-- Another scoring finds the same counts, whatever the numbers and the statistics. -/
theorem counts_unique {marks₂ marks₂' : PassMarks} {counts₂ : TreeCounts} {db₂' : Database}
    (hagain : db₂.Scored cfg st.root marks₂ counts₂ marks₂' db₂') : counts₂ = counts := by
  obtain ⟨er, her, -⟩ := hf.root hs
  have hcounts₂ := hagain.counts
  rw [hf.treePoints_congr her (bare_eq_of_unscored h₂) fun x _ =>
    congrFun (hf.muted_eq_of_unscored h₂) x] at hcounts₂
  exact hcounts₂.unique h.counts

end Scored

/-- On a consistent database, a pass that has counted nothing finds in a statement's tree what its
nodes are scored on one by one: all their points; those that were shown or are excluded; and among
these the ones covered by an exclusion alone. The result depends neither on underline ids nor on
cached statistics, and what it leaves uncovered has a row each. It is there whenever all nodes can
be scored and neither the points nor the underline ids are too many. -/
theorem computeTree_agrees (hdb : db.check = .ok ()) {stmt : StmtId} {st : Statement}
    (hs : db.stmt? stmt = some st) (cfg : ScoringConfig) {marks : PassMarks}
    (hm : ∀ id, marks.counted id = false) :
    ∃ nodes, db.subtree st.root = .ok nodes ∧
      (∀ counts marks' db', db.computeTree st.root cfg marks = .ok (counts, marks', db') →
        (∃ points, nodes.mapM (fun n => db.scoredPoints n cfg) = .ok points ∧
          counts.total.toNat = (points.map fun o => (o.getD []).length).sum ∧
          counts.hit.toNat =
            (points.map fun o => (o.getD []).countP fun p => p.hit || p.excluded).sum ∧
          counts.excluded.toNat =
            (points.map fun o => (o.getD []).countP fun p => p.excluded && !p.hit).sum) ∧
        counts.hit ≤ counts.total ∧ counts.excluded ≤ counts.hit ∧
        db'.unscored = db.unscored ∧
        ∀ db₂ : Database, db₂.unscored = db.unscored →
          (∃ rows, db₂.statementDetail stmt cfg = .ok rows ∧
            rows.length = counts.total.toNat - counts.hit.toNat) ∧
          ∀ marks₂ : PassMarks, (∀ id, marks₂.counted id = false) →
            ∀ counts₂ marks₂' db₂', db₂.computeTree st.root cfg marks₂ =
              .ok (counts₂, marks₂', db₂') → counts₂ = counts) ∧
      ∀ points, nodes.mapM (fun n => db.scoredPoints n cfg) = .ok points →
        (points.map fun o => (o.getD []).length).sum < UInt32.size →
        (Underlining.highest db nodes).toNat + 1 + (db.awaiting cfg st.root).length < UInt32.size →
          ∃ result, db.computeTree st.root cfg marks = .ok result := by
  have hf := forest_of_check hdb
  obtain ⟨er, her, -⟩ := hf.root hs
  refine ⟨db.nodes st.root, hf.subtree_eq her, ?_, ?_⟩
  · intro counts marks' db' h
    have hscored := hf.scored_of_computeTree hs (fun n _ => hm n) h
    refine ⟨hscored.sums, hscored.hit_le, hscored.excluded_le, hscored.unscored, ?_⟩
    intro db₂ h₂
    refine ⟨hscored.length_rows hf hs h₂, ?_⟩
    intro marks₂ hm₂ counts₂ marks₂' db₂' hrun
    have hs₂ : db₂.stmt? stmt = some st := by
      rw [stmt?, stmts_eq_of_unscored h₂]
      exact hs
    exact hscored.counts_unique hf hs h₂
      ((hf.congr (bare_eq_of_unscored h₂)).scored_of_computeTree hs₂ (fun n _ => hm₂ n) hrun)
  · intro points hpoints hsum hroom
    rcases hf.computeTree_spec hs (fun n _ => hm n) with
      ⟨counts, marks', db', h, -⟩ | ⟨fault, -, hfault⟩
    · exact ⟨_, h⟩
    · have hfit : (db.treePoints cfg st.root).length < UInt32.size := by
        rw [treePoints_of_mapM hpoints, List.length_flatten, List.map_map]
        exact hsum
      exact absurd (hfault.exhausted (scorable_of_mapM hpoints) hfit).2 (Nat.not_le.mpr hroom)

theorem computeTree_agrees_andGate :
    andGate.check = .ok () ∧ andGate.stmt? ⟨0⟩ = some ⟨⟨2⟩, false⟩ ∧
      (∀ id, (PassMarks.new 3).counted id = false) ∧
      (andGate.computeTree ⟨2⟩ .default (.new 3)).map (·.1) = .ok ⟨1, 3, 0⟩ ∧
      ∃ rows, andGate.statementDetail ⟨0⟩ .default = .ok rows ∧ rows.length = 3 - 1 := by
  have hrun : (andGate.computeTree ⟨2⟩ .default (.new 3)).map (·.1) = .ok ⟨1, 3, 0⟩ := by decide
  refine ⟨by decide, by decide, PassMarks.counted_new 3, hrun, ?_⟩
  obtain ⟨nodes, -, hagree, -⟩ := computeTree_agrees (show andGate.check = .ok () by decide)
    (show andGate.stmt? ⟨0⟩ = some ⟨⟨2⟩, false⟩ by decide) .default (PassMarks.counted_new 3)
  rcases h : andGate.computeTree ⟨2⟩ .default (.new 3) with fault | ⟨counts, marks, db⟩
  · rw [h] at hrun
    cases hrun
  · obtain ⟨-, -, -, -, hrows⟩ := hagree counts marks db h
    rw [h] at hrun
    cases hrun
    exact (hrows andGate rfl).1

end LogicCoverage.Database
