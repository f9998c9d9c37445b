import LogicCoverage.Chain
import LogicCoverage.Proofs.Descent

/-!
# The roles of nodes in chains

On a forest the links that a role depends on all lead somewhere, so that every node has its role.
-/

namespace LogicCoverage

/-- Both children of a node are asked for together. -/
theorem Expression.pair_eq_ok_iff {e : Expression} {id left right : ExprId} :
    e.pair id = .ok (left, right) ↔ e.left = some left ∧ e.right = some right := by
  rw [pair]
  cases e.left <;> cases e.right <;> simp

theorem Expression.exists_pair {e : Expression} (id : ExprId)
    (h : e.left ≠ none ∧ e.right ≠ none) :
    ∃ left right, e.left = some left ∧ e.right = some right ∧ e.pair id = .ok (left, right) := by
  obtain ⟨left, hleft⟩ := Option.ne_none_iff_exists'.mp h.1
  obtain ⟨right, hright⟩ := Option.ne_none_iff_exists'.mp h.2
  exact ⟨left, right, hleft, hright, pair_eq_ok_iff.mpr ⟨hleft, hright⟩⟩

namespace Database

variable {db : Database} {cfg : ScoringConfig} {id : ExprId} {e : Expression}

namespace Forest

variable (hf : db.Forest)

include hf

/-- In a forest, a parent that is named is there. -/
theorem exists_parent (h : db.expr? id = some e) {p : ExprId} (hp : e.parentExpr? = some p) :
    ∃ ep, db.expr? p = some ep := by
  obtain ⟨ep, hep, -⟩ := hf.parent h (parent_of_parentExpr? hp)
  exact ⟨ep, hep⟩

/-- In a forest, whether a node shares its family with its parent can be told. -/
theorem exists_parentShares (h : db.expr? id = some e) :
    ∃ shares, db.parentShares e = .ok shares := by
  rw [parentShares]
  split
  · rename_i parent hp
    obtain ⟨ep, hep⟩ := hf.exists_parent h hp
    exact ⟨_, by rw [db.expr_eq_ok_iff.mpr hep]; rfl⟩
  · exact ⟨_, rfl⟩

/-- Likewise for its children. -/
theorem exists_someChildShares (h : db.expr? id = some e) :
    ∃ shares, db.someChildShares e = .ok shares := by
  have hchild {o : Option ExprId} (ho : ∀ c, o = some c → c ∈ e.children) :
      ∃ shares, db.childShares e o = .ok shares := by
    cases o with
    | none => exact ⟨_, rfl⟩
    | some c =>
      obtain ⟨ec, hec, -⟩ := hf.child h (ho c rfl)
      exact ⟨_, by rw [childShares, db.expr_eq_ok_iff.mpr hec]; rfl⟩
  obtain ⟨left, hleft⟩ := hchild fun c hc => Expression.mem_children.mpr (.inl hc)
  obtain ⟨right, hright⟩ := hchild fun c hc => Expression.mem_children.mpr (.inr hc)
  rw [someChildShares, hleft, hright]
  cases left
  · exact ⟨_, rfl⟩
  · exact ⟨_, rfl⟩

/-- Whether a node is in a chain can be told. -/
theorem exists_inChain (h : db.expr? id = some e) : ∃ chained, db.inChain e = .ok chained := by
  obtain ⟨shares, hshares⟩ := hf.exists_parentShares h
  obtain ⟨some, hsome⟩ := hf.exists_someChildShares h
  rw [inChain, hshares, hsome]
  cases e.category.isGate <;> cases shares <;> exact ⟨_, rfl⟩

/-- Whether a node feeds a chain without being part of it can be told. -/
theorem exists_isChainBoundary (h : db.expr? id = some e) (cfg : ScoringConfig) :
    ∃ boundary, db.isChainBoundary id cfg = .ok boundary := by
  rw [isChainBoundary]
  split
  · rw [db.expr_eq_ok_iff.mpr h]
    cases hp : e.parentExpr? with
    | none => exact ⟨false, by simp only [bind, Except.bind, hp]⟩
    | some parent =>
      obtain ⟨ep, hep⟩ := hf.exists_parent h hp
      obtain ⟨chained, hchained⟩ := hf.exists_inChain hep
      exact ⟨_, by simp only [bind, Except.bind, hp, db.expr_eq_ok_iff.mpr hep, hchained]; rfl⟩
  · exact ⟨_, rfl⟩

/-- The role of a node in its chain can be told. -/
theorem exists_chainRole (h : db.expr? id = some e) (cfg : ScoringConfig) :
    ∃ role, db.chainRole id cfg = .ok role := by
  obtain ⟨shares, hshares⟩ := hf.exists_parentShares h
  obtain ⟨some, hsome⟩ := hf.exists_someChildShares h
  obtain ⟨boundary, hboundary⟩ := hf.exists_isChainBoundary h cfg
  have hrole : ∃ role, db.gateRole e shares = .ok role := by
    rw [gateRole, hsome]
    split
    · exact ⟨_, rfl⟩
    · split <;> exact ⟨_, rfl⟩
  obtain ⟨role, hrole⟩ := hrole
  rw [chainRole]
  split
  · simp only [db.expr_eq_ok_iff.mpr h, hshares, hrole, bind, Except.bind, hboundary]
    cases role <;> exact ⟨_, rfl⟩
  · exact ⟨_, rfl⟩

omit hf in
/-- Only gates are roots of chains. -/
theorem isGate_of_chainRole (h : db.expr? id = some e)
    (hrole : db.chainRole id cfg = .ok (some .root)) : e.category.isGate = true := by
  rw [chainRole] at hrole
  split at hrole
  · obtain ⟨e', he', hrole⟩ := bind_eq_ok_iff.mp hrole
    cases h.symm.trans (db.expr_eq_ok_iff.mp he')
    obtain ⟨shares, -, hrole⟩ := bind_eq_ok_iff.mp hrole
    obtain ⟨role, hgate, hrole⟩ := bind_eq_ok_iff.mp hrole
    cases hcat : e.category.isGate with
    | true => rfl
    | false =>
      rw [gateRole, hcat] at hgate
      cases hgate
      obtain ⟨boundary, -, hrole⟩ := bind_eq_ok_iff.mp hrole
      cases boundary <;> cases hrole
  · cases hrole

/-- Whether a node is subsumed can be told. -/
theorem exists_isSubsumed (h : db.expr? id = some e) :
    ∃ subsumed, db.isSubsumed id = .ok subsumed := by
  rw [isSubsumed, db.expr_eq_ok_iff.mpr h]
  simp only [bind, Except.bind]
  split
  · rename_i parent _ hp
    obtain ⟨ep, hep⟩ := hf.exists_parent h hp
    exact ⟨_, by rw [db.expr_eq_ok_iff.mpr hep]; rfl⟩
  · exact ⟨_, rfl⟩

end Forest

end Database

end LogicCoverage
