import LogicCoverage.Proofs.TreeScore

/-!
# The rows of a report

The rows of a node are its missing points, with the numbers of their sites; those of a statement are
the rows of its nodes, in post-order.
-/

namespace LogicCoverage

section Sequences

variable {ε α β σ : Type}

/-- Lists that are put together one after the other. -/
theorem foldlM_append {l : List α} {f : α → Except ε (List β)} (found : List β) :
    l.foldlM (fun found a => do return found ++ (← f a)) found =
      (l.mapM f).map fun lists => found ++ lists.flatten := by
  induction l generalizing found with
  | nil => simp [Except.map, pure, Except.pure]
  | cons a l ih =>
    rw [List.foldlM_cons, List.mapM_cons]
    simp only [bind, Except.bind, pure, Except.pure] at ih ⊢
    cases f a with
    | error fault => rfl
    | ok list =>
      simp only [ih]
      cases l.mapM f <;> simp [Except.map]

/-- What every step of a loop keeps, the loop keeps. -/
theorem foldlM_invariant {P : σ → Prop} {step : σ → α → Except ε σ} {l : List α} {s s' : σ}
    (h : ∀ a ∈ l, ∀ s₁ s₂, P s₁ → step s₁ a = .ok s₂ → P s₂) (hs : P s)
    (hfold : l.foldlM step s = .ok s') : P s' := by
  induction l generalizing s with
  | nil =>
    cases hfold
    exact hs
  | cons a l ih =>
    rw [List.forall_mem_cons] at h
    rw [List.foldlM_cons] at hfold
    obtain ⟨s₁, hstep, hfold⟩ := bind_eq_ok_iff.mp hfold
    exact ih h.2 (h.1 s s₁ hs hstep) hfold

/-- Folds over equal steps are equal. -/
theorem foldlM_congr {l : List α} {f g : σ → α → Except ε σ} {s : σ}
    (h : ∀ a ∈ l, ∀ s, f s a = g s a) : l.foldlM f s = l.foldlM g s := by
  induction l generalizing s with
  | nil => rfl
  | cons a l ih =>
    rw [List.forall_mem_cons] at h
    rw [List.foldlM_cons, List.foldlM_cons, h.1]
    exact bind_congr fun s => ih h.2

end Sequences

namespace Database

variable {db : Database} {cfg : ScoringConfig}

/-- The row of a missing point. -/
def gap (db : Database) (n : ExprId) (p : Point) : Row :=
  ⟨n, p.site, db.number? p.site, p.kind, p.bit⟩

/-- The rows of a node. -/
def gaps (db : Database) (cfg : ScoringConfig) (n : ExprId) : List Row :=
  ((db.points cfg n).filter Point.missing).map (db.gap n)

/-- The rows of a tree. -/
def treeGaps (db : Database) (cfg : ScoringConfig) (root : ExprId) : List Row :=
  (db.nodes root).flatMap (db.gaps cfg)

/-- A row of a node is that of a point it misses. -/
theorem mem_gaps {n : ExprId} {row : Row} :
    row ∈ db.gaps cfg n ↔ ∃ p ∈ db.points cfg n, p.missing = true ∧ db.gap n p = row := by
  simp [gaps, and_assoc]

/-- A row of a tree is that of a point some node misses. -/
theorem mem_treeGaps {root : ExprId} {row : Row} :
    row ∈ db.treeGaps cfg root ↔
      ∃ n ∈ db.nodes root, ∃ p ∈ db.points cfg n, p.missing = true ∧ db.gap n p = row := by
  simp only [treeGaps, List.mem_flatMap, mem_gaps]

namespace Forest

variable (hf : db.Forest) {id : ExprId} {e : Expression}

include hf

/-- The rows of a node can be told if it can be scored. -/
theorem missingDetail_eq (h : db.expr? id = some e) (hs : db.Scorable cfg id) :
    db.missingDetail id cfg = .ok (db.gaps cfg id) := by
  obtain ⟨points, hpoints⟩ := hs
  rw [missingDetail, hpoints, gaps, points_of_scoredPoints hpoints]
  apply mapM_eq_ok_map
  intro p hp
  have hsite : p.site ∈ db.sites cfg id := by
    rw [sites, points_of_scoredPoints hpoints]
    exact List.mem_map_of_mem (List.mem_of_mem_filter hp)
  obtain ⟨ep, hep⟩ := hf.expr?_of_mem_nodes h (hf.mem_nodes_of_mem_sites h hsite)
  rw [gap, number?, hep, db.expr_eq_ok_iff.mpr hep]
  rfl

/-- What a walk adds at a node are the rows of the node. -/
theorem visitNode_addRows (h : db.expr? id = some e) (found : List Row) :
    db.visitNode (db.addRows cfg) found id = do return found ++ (← db.missingDetail id cfg) := by
  rw [hf.visitNode_eq h, addRows, missingDetail, scoredPoints, hf.placement_eq h,
    db.expr_eq_ok_iff.mpr h]
  show _ = ((db.pointsAt e (db.place id) cfg >>= db.rows id) >>= fun rows => pure (found ++ rows))
  rw [bind_assoc]
  rfl

/-- The walk over a statement's tree collects what its nodes report when they are asked one by
one. -/
theorem statementDetail_eq_mapM {stmt : StmtId} {st : Statement} (hs : db.stmt? stmt = some st)
    (cfg : ScoringConfig) :
    db.statementDetail stmt cfg =
      ((db.nodes st.root).mapM fun n => db.missingDetail n cfg).map List.flatten := by
  obtain ⟨er, her, -⟩ := hf.root hs
  have hpass : (db.nodes st.root).foldlM (db.visitNode (db.addRows cfg)) [] =
      (db.nodes st.root).foldlM
        (fun found n => do return found ++ (← db.missingDetail n cfg)) [] := by
    refine foldlM_congr fun n hn found => ?_
    obtain ⟨en, hen⟩ := hf.expr?_of_mem_nodes her hn
    exact hf.visitNode_addRows hen found
  rw [statementDetail, db.stmt_eq_ok_iff.mpr hs]
  show (db.tree st.root).visit (db.addRows cfg) 0 false [] >>= _ = _
  rw [hf.visit_root _ hs, hpass, foldlM_append]
  cases (db.nodes st.root).mapM fun n => db.missingDetail n cfg <;> rfl

/-- A statement's report has the rows of its tree. -/
theorem statementDetail_eq {stmt : StmtId} {st : Statement} (hs : db.stmt? stmt = some st)
    (hscorable : ∀ n ∈ db.nodes st.root, db.Scorable cfg n) :
    db.statementDetail stmt cfg = .ok (db.treeGaps cfg st.root) := by
  obtain ⟨er, her, -⟩ := hf.root hs
  have hrows : (db.nodes st.root).mapM (fun n => db.missingDetail n cfg) =
      .ok ((db.nodes st.root).map (db.gaps cfg)) := by
    refine mapM_eq_ok_map fun n hn => ?_
    obtain ⟨en, hen⟩ := hf.expr?_of_mem_nodes her hn
    exact hf.missingDetail_eq hen (hscorable n hn)
  rw [hf.statementDetail_eq_mapM hs, hrows]
  rfl

omit hf in
/-- There is a row for every point that is not covered. -/
theorem length_treeGaps (root : ExprId) :
    (db.treeGaps cfg root).length + (db.treePoints cfg root).countP Point.covered =
      (db.treePoints cfg root).length := by
  have hgaps : (db.treeGaps cfg root).length = (db.treePoints cfg root).countP Point.missing := by
    simp [treeGaps, treePoints, units, gaps, List.length_flatMap, List.countP_eq_length_filter,
      Function.comp_def]
  rw [hgaps, List.length_eq_countP_add_countP Point.covered, Nat.add_comm]
  congr 1
  apply List.countP_congr
  intro p _
  simp [Point.missing]

end Forest

end Database

end LogicCoverage
