import LogicCoverage.Proofs.Gaps

/-!
# The report of a statement, node by node

The walk over a statement's tree carries depth and exclusion down and constancy up; a node that is
asked alone finds them from its links. Both ways lead to the same rows in the same order, and to the
same fault where one of the nodes cannot be told.
-/

namespace LogicCoverage

section Sequences

variable {ε α β : Type}

/-- A computation over a list fails with the first element that fails. -/
theorem mapM_eq_error_iff {l : List α} {f : α → Except ε β} {fault : ε} :
    l.mapM f = .error fault ↔ ∃ before a after, l = before ++ a :: after ∧
      (∀ b ∈ before, ∃ result, f b = .ok result) ∧ f a = .error fault := by
  induction l with
  | nil => simp [pure, Except.pure]
  | cons a l ih =>
    rw [List.mapM_cons, bind_eq_error_iff]
    constructor
    · rintro (ha | ⟨result, ha, hrest⟩)
      · exact ⟨[], a, l, rfl, nofun, ha⟩
      · rcases bind_eq_error_iff.mp hrest with hl | ⟨results, -, hlast⟩
        · obtain ⟨before, b, after, rfl, hbefore, hb⟩ := ih.mp hl
          exact ⟨a :: before, b, after, rfl,
            List.forall_mem_cons.mpr ⟨⟨result, ha⟩, hbefore⟩, hb⟩
        · cases hlast
    · rintro ⟨before, b, after, hl, hbefore, hb⟩
      cases before with
      | nil =>
        cases hl
        exact .inl hb
      | cons a' before =>
        cases hl
        rw [List.forall_mem_cons] at hbefore
        obtain ⟨⟨result, ha⟩, hbefore⟩ := hbefore
        refine .inr ⟨result, ha, ?_⟩
        rw [ih.mpr ⟨before, b, after, rfl, hbefore, hb⟩]
        rfl

end Sequences

namespace Database

variable {db : Database}

/-- On a consistent database the report of a statement is that of its nodes, one after the other in
post-order, and it fails with the first node that fails. Whatever step the walk takes at a node, it
takes it with the depth, the exclusion and the constancy that the node has when it is asked alone,
and these can be told of every node. -/
theorem statementDetail_node_by_node (hdb : db.check = .ok ()) {stmt : StmtId} {st : Statement}
    (hs : db.stmt? stmt = some st) (cfg : ScoringConfig) :
    ∃ nodes, db.subtree st.root = .ok nodes ∧
      db.statementDetail stmt cfg =
        (nodes.mapM fun n => db.missingDetail n cfg).map List.flatten ∧
      (∀ fault, db.statementDetail stmt cfg = .error fault ↔
        ∃ before n after, nodes = before ++ n :: after ∧
          (∀ m ∈ before, ∃ rows, db.missingDetail m cfg = .ok rows) ∧
          db.missingDetail n cfg = .error fault) ∧
      (∀ n ∈ nodes, ∃ depth excluded constantOnly, db.depthOf n = .ok depth ∧
        db.isEffectivelyExcluded n = .ok excluded ∧ db.isConstantOnly n = .ok constantOnly) ∧
      ∀ (σ : Type) (step : σ → Expression → Placement → Checked σ) (s : σ),
        (db.tree st.root).visit step 0 false s = do
          let s ← nodes.foldlM (fun s n => do
            let depth ← db.depthOf n
            let excluded ← db.isEffectivelyExcluded n
            let constantOnly ← db.isConstantOnly n
            step s (← db.expr n) ⟨n, depth, excluded, constantOnly⟩) s
          return (s, ← db.isConstantOnly st.root) := by
  have hf := forest_of_check hdb
  obtain ⟨er, her, -⟩ := hf.root hs
  have hmapM := hf.statementDetail_eq_mapM hs cfg
  refine ⟨db.nodes st.root, hf.subtree_eq her, hmapM, fun fault => ?_, fun n hn => ?_,
    fun σ step s => ?_⟩
  · rw [hmapM, ← mapM_eq_error_iff]
    cases (db.nodes st.root).mapM fun n => db.missingDetail n cfg <;> simp [Except.map]
  · obtain ⟨en, hen⟩ := hf.expr?_of_mem_nodes her hn
    exact ⟨_, _, _, hf.depthOf_eq hen, hf.isEffectivelyExcluded_eq hen, hf.isConstantOnly_eq hen⟩
  · rw [hf.visit_root step hs, hf.isConstantOnly_eq her]
    refine congrArg (· >>= fun s => .ok (s, db.allConstant st.root))
      (foldlM_congr fun n hn s => ?_)
    obtain ⟨en, hen⟩ := hf.expr?_of_mem_nodes her hn
    rw [hf.visitNode_eq hen, hf.depthOf_eq hen, hf.isEffectivelyExcluded_eq hen,
      hf.isConstantOnly_eq hen, db.expr_eq_ok_iff.mpr hen]
    rfl

/-- The rows of the OR gate come before those of the chain that it feeds. -/
theorem statementDetail_node_by_node_mixedGates :
    mixedGates.check = .ok () ∧ mixedGates.stmt? ⟨0⟩ = some ⟨⟨6⟩, false⟩ ∧
      (mixedGates.statementDetail ⟨0⟩ .default).map (List.map fun row => (row.expr, row.missing)) =
        .ok [(⟨5⟩, .leftTrue), (⟨5⟩, .rightTrue), (⟨5⟩, .bothFalse), (⟨6⟩, .operandFalse),
          (⟨6⟩, .allTrue)] ∧
      ∃ nodes, mixedGates.subtree ⟨6⟩ = .ok nodes ∧
        mixedGates.statementDetail ⟨0⟩ .default =
          (nodes.mapM fun n => mixedGates.missingDetail n .default).map List.flatten := by
  refine ⟨by decide, by decide, by decide, ?_⟩
  obtain ⟨nodes, hnodes, hdetail, -⟩ := statementDetail_node_by_node
    (show mixedGates.check = .ok () by decide)
    (show mixedGates.stmt? ⟨0⟩ = some ⟨⟨6⟩, false⟩ by decide) .default
  exact ⟨nodes, hnodes, hdetail⟩

end Database

end LogicCoverage
