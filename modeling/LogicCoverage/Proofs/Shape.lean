import LogicCoverage.Proofs.Placement

/-!
# The shape of a database

Operators, links, widths, and what is written to make up the shape of a database. Two databases of
one shape have the same trees, depths, constants and chains, whatever the simulation showed, whatever
is excluded, and whatever scopes there are; where a link leads nowhere, both meet the same fault.
-/

namespace LogicCoverage

/-- The same operator, links and width, both written to or both read. -/
structure Expression.SameShape (e e' : Expression) : Prop where
  op : e'.op = e.op
  left : e'.left = e.left
  right : e'.right = e.right
  parent : e'.parent = e.parent
  width : e'.width = e.width
  lhs : e'.lhs = e.lhs

namespace Expression.SameShape

variable {e e' : Expression}

theorem refl (e : Expression) : e.SameShape e := ⟨rfl, rfl, rfl, rfl, rfl, rfl⟩

variable (h : e.SameShape e')

include h

/-- The category of a node is read off its operator. -/
theorem category : e'.category = e.category := by rw [Expression.category, h.op, Expression.category]

theorem isLeaf : e'.isLeaf = e.isLeaf := by rw [Expression.isLeaf, h.left, h.right, Expression.isLeaf]

/-- Whether a node is scorable is a matter of shape. -/
theorem isScorable : e'.isScorable = e.isScorable := by
  rw [Expression.isScorable, h.category, h.lhs, Expression.isScorable]

theorem parentExpr? : e'.parentExpr? = e.parentExpr? := by
  rw [Expression.parentExpr?, h.parent, Expression.parentExpr?]

theorem pair (id : ExprId) : e'.pair id = e.pair id := by
  rw [Expression.pair, h.left, h.right, h.op, Expression.pair]

/-- How many bits are scored is read off the width. -/
theorem bitwiseWidth (cfg : ScoringConfig) : e'.bitwiseWidth cfg = e.bitwiseWidth cfg := by
  rw [Expression.bitwiseWidth, h.width, Expression.bitwiseWidth]

end Expression.SameShape

namespace Database

/-- As many nodes, and those at the same ids have the same shape. -/
structure SameShape (db db' : Database) : Prop where
  size : db'.exprs.size = db.exprs.size
  expr? (id : ExprId) : Option.Rel Expression.SameShape (db.expr? id) (db'.expr? id)

namespace SameShape

variable {db db' : Database}

/-- The same nodes have the same shape. -/
theorem of_exprs (h : db'.exprs = db.exprs) : db.SameShape db' where
  size := by rw [h]
  expr? id := by
    rw [Database.expr?, Database.expr?, h]
    cases db.exprs[id.index.toNat]? with
    | none => exact .none
    | some e => exact .some (.refl e)

variable (h : db.SameShape db')

include h

/-- A look-up meets the same fault, or nodes of the same shape. -/
theorem expr (id : ExprId) :
    (∃ fault, db.expr id = .error fault ∧ db'.expr id = .error fault) ∨
      ∃ e e', db.expr id = .ok e ∧ db'.expr id = .ok e' ∧ e.SameShape e' := by
  have hid := h.expr? id
  rw [Database.expr?, Database.expr?] at hid
  rw [Database.expr, Database.expr, entry, entry, h.size]
  generalize db.exprs[id.index.toNat]? = x at hid
  generalize db'.exprs[id.index.toNat]? = x' at hid
  cases hid with
  | none => exact .inl ⟨_, rfl, rfl⟩
  | some hsame => exact .inr ⟨_, _, rfl, rfl, hsame⟩

/-- What reads the shape of a node alone. -/
theorem bind_congr {α : Type} (id : ExprId) {f f' : Expression → Checked α}
    (hf : ∀ e e', e.SameShape e' → f' e' = f e) : db'.expr id >>= f' = db.expr id >>= f := by
  rcases h.expr id with ⟨fault, he, he'⟩ | ⟨e, e', he, he', hsame⟩
  · rw [he, he']
    rfl
  · rw [he, he']
    exact hf e e' hsame

/-! ## Links -/

/-- Links are a matter of shape. -/
theorem under : db'.Under = db.Under := by
  funext c p
  have hid := h.expr? c
  rw [Under, Under]
  generalize db.expr? c = x at hid
  generalize db'.expr? c = x' at hid
  cases hid with
  | none => simp
  | some hsame => simp [hsame.parent]

/-- A climb meets the same nodes. -/
theorem ids_climb (fuel : Nat) (link : Link) :
    (db'.climb fuel link).ids = (db.climb fuel link).ids := by
  induction fuel generalizing link with
  | zero => cases link <;> simp [climb]
  | succ fuel ih =>
    cases link with
    | detached => simp [climb]
    | stmt s => simp [climb]
    | expr p =>
      rcases h.expr p with ⟨fault, he, he'⟩ | ⟨e, e', he, he', hsame⟩
      · simp only [climb, he, he']
      · simp only [climb, he, he', Lineage.ids, ih, hsame.parent]

theorem ancestors (id : ExprId) : db'.ancestors id = db.ancestors id :=
  h.bind_congr id fun e e' hsame => by
    rw [lineage, lineage, h.ids_climb, h.size, hsame.parent]

/-- A walk down meets the same nodes, in the same order. -/
theorem postOrder_descend (fuel : Nat) (o : Option ExprId) :
    (db'.descend fuel o).postOrder = (db.descend fuel o).postOrder := by
  induction fuel generalizing o with
  | zero => cases o <;> simp [descend]
  | succ fuel ih =>
    cases o with
    | none => simp [descend]
    | some id =>
      rcases h.expr id with ⟨fault, he, he'⟩ | ⟨e, e', he, he', hsame⟩
      · simp only [descend, he, he']
      · simp only [descend, he, he', Tree.postOrder_node, ih, hsame.left, hsame.right]

theorem subtree (id : ExprId) : db'.subtree id = db.subtree id := by
  rw [Database.subtree, tree, h.size, h.postOrder_descend, Database.subtree, tree]

/-- Which nodes are below a node is a matter of shape. -/
theorem nodes (id : ExprId) : db'.nodes id = db.nodes id := by
  rw [Database.nodes, h.subtree, Database.nodes]

/-- A walk down meets the same constants. -/
theorem constantOnly_descend (fuel : Nat) (o : Option ExprId) :
    (db'.descend fuel o).constantOnly = (db.descend fuel o).constantOnly := by
  induction fuel generalizing o with
  | zero => cases o <;> simp [descend]
  | succ fuel ih =>
    cases o with
    | none => simp [descend]
    | some id =>
      rcases h.expr id with ⟨fault, he, he'⟩ | ⟨e, e', he, he', hsame⟩
      · simp only [descend, he, he']
      · simp only [descend, he, he', Tree.constantOnly, ih, hsame.isLeaf, hsame.category,
          hsame.left, hsame.right]

theorem isConstantOnly (id : ExprId) : db'.isConstantOnly id = db.isConstantOnly id := by
  rw [Database.isConstantOnly, tree, h.size, h.constantOnly_descend, Database.isConstantOnly, tree]

theorem allConstant (id : ExprId) : db'.allConstant id = db.allConstant id := by
  rw [Database.allConstant, h.isConstantOnly, Database.allConstant]

/-! ## Depth -/

/-- One step down counts the same. -/
theorem childDepth (node : ExprId) (isLeft : Bool) (depth : UInt32) :
    db'.childDepth node isLeft depth = db.childDepth node isLeft depth :=
  h.bind_congr node fun e e' hsame => by
    rw [hsame.left, hsame.right]
    cases (if isLeft = true then e.left else e.right) with
    | none => rfl
    | some c => exact h.bind_congr c fun ec ec' hc => by rw [hsame.op, hc.op]

theorem stepDepth (p c : ExprId) (depth : UInt32) :
    db'.stepDepth p c depth = db.stepDepth p c depth :=
  h.bind_congr p fun e e' hsame => by rw [hsame.left, h.childDepth]

theorem depthAlong (depth : UInt32) (l : List ExprId) :
    db'.depthAlong depth l = db.depthAlong depth l := by
  induction l generalizing depth with
  | nil => simp [Database.depthAlong]
  | cons p l ih =>
    cases l with
    | nil => simp [Database.depthAlong]
    | cons c l => rw [depthAlong_cons_cons, depthAlong_cons_cons, h.stepDepth, funext ih]

theorem depthOf (id : ExprId) : db'.depthOf id = db.depthOf id := by
  simp only [Database.depthOf, h.ancestors, h.depthAlong]

/-- Levels are a matter of shape. -/
theorem depth (id : ExprId) : db'.depth id = db.depth id := by
  rw [Database.depth, h.depthOf, Database.depth]

/-! ## Chains -/

/-- A walk down along a chain meets the same operands. -/
theorem operandsUnder_descend (op : Operator) (fuel : Nat) (o : Option ExprId) :
    (db'.descend fuel o).operandsUnder op = (db.descend fuel o).operandsUnder op := by
  induction fuel generalizing op o with
  | zero => cases o <;> simp [descend, Tree.operandsUnder]
  | succ fuel ih =>
    cases o with
    | none => simp [descend, Tree.operandsUnder]
    | some id =>
      rcases h.expr id with ⟨fault, he, he'⟩ | ⟨e, e', he, he', hsame⟩
      · simp only [descend, he, he', Tree.operandsUnder]
      · simp only [descend, he, he', Tree.operandsUnder, ih, hsame.op, hsame.left, hsame.right,
          hsame.pair]

/-- The operands of a chain are a matter of shape. -/
theorem chainOperands (root : ExprId) : db'.chainOperands root = db.chainOperands root := by
  rw [Database.chainOperands, Database.chainOperands, tree, tree, h.size, descend, descend]
  rcases h.expr root with ⟨fault, he, he'⟩ | ⟨e, e', he, he', hsame⟩
  · simp only [he, he']
  · simp only [he, he', Tree.operands, h.operandsUnder_descend, hsame.op, hsame.left, hsame.right,
      hsame.pair]

variable {e e' : Expression} (hsame : e.SameShape e')

include hsame

/-- Families are read off operators. -/
theorem parentShares : db'.parentShares e' = db.parentShares e := by
  rw [Database.parentShares, Database.parentShares, hsame.parentExpr?, hsame.op]
  cases e.parentExpr? with
  | none => rfl
  | some p => exact h.bind_congr p fun ep ep' hp => by rw [hp.op]

theorem childShares (o : Option ExprId) : db'.childShares e' o = db.childShares e o := by
  cases o with
  | none => rfl
  | some c =>
    rw [Database.childShares, Database.childShares, hsame.op]
    exact h.bind_congr c fun ec ec' hc => by rw [hc.op]

theorem someChildShares : db'.someChildShares e' = db.someChildShares e := by
  simp only [Database.someChildShares, h.childShares hsame, hsame.left, hsame.right]

/-- Chains are a matter of shape. -/
theorem inChain : db'.inChain e' = db.inChain e := by
  simp only [Database.inChain, h.parentShares hsame, h.someChildShares hsame, hsame.category]

theorem gateRole (shares : Bool) : db'.gateRole e' shares = db.gateRole e shares := by
  simp only [Database.gateRole, h.someChildShares hsame, hsame.category]

omit hsame

variable {cfg cfg' : ScoringConfig} (hcfg : cfg'.chains = cfg.chains)

/-- What is subsumed is a matter of shape. -/
theorem isSubsumed (id : ExprId) : db'.isSubsumed id = db.isSubsumed id :=
  h.bind_congr id fun e e' hsame => by
    rw [hsame.category, hsame.parentExpr?]
    cases e.parentExpr? with
    | none => cases e.category <;> rfl
    | some p =>
      cases e.category with
      | value => exact h.bind_congr p fun ep ep' hp => by rw [hp.category]
      | _ => rfl

include hcfg

theorem isChainBoundary (id : ExprId) : db'.isChainBoundary id cfg' = db.isChainBoundary id cfg := by
  rw [Database.isChainBoundary, Database.isChainBoundary, hcfg]
  refine if_congr Iff.rfl ?_ rfl
  refine h.bind_congr id fun e e' hsame => ?_
  rw [hsame.parentExpr?]
  cases e.parentExpr? with
  | none => rfl
  | some p =>
    refine h.bind_congr p fun ep ep' hp => ?_
    rw [h.inChain hp, hp.op, hsame.op]

/-- The roles in chains are a matter of shape, and of whether chains are scored at all. -/
theorem chainRole (id : ExprId) : db'.chainRole id cfg' = db.chainRole id cfg := by
  rw [Database.chainRole, Database.chainRole, hcfg]
  refine if_congr Iff.rfl ?_ rfl
  refine h.bind_congr id fun e e' hsame => ?_
  simp only [h.parentShares hsame, h.gateRole hsame, h.isChainBoundary hcfg]

end SameShape

end Database

end LogicCoverage
