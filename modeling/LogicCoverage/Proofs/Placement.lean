import LogicCoverage.Placement
import LogicCoverage.Proofs.Descent

/-!
# Placements in a forest

The three facts about a node's surroundings follow the links: exclusion and depth come from the
parent, constancy from the children. The main statement is that a walk over a statement's tree,
which carries them along, takes at every node the step that the node's own placement calls for.
-/

namespace LogicCoverage.Database

open Relation

variable {db : Database}

/-! ## Exclusion -/

/-- The node or one above it is excluded. -/
def muted (db : Database) (id : ExprId) : Bool := Checked.getD (db.isEffectivelyExcluded id) false

/-- The owner of a node is a muted node. -/
def mutedOwner (db : Database) : Link → Bool
  | .expr p => db.muted p
  | _ => false

/-- A node is excluded by its own flag or by one above it. -/
theorem isEffectivelyExcluded_of_expr? {id : ExprId} {e : Expression} (h : db.expr? id = some e) :
    db.isEffectivelyExcluded id =
      if e.excluded then .ok true
      else (db.lineage e.parent).any fun _ node => node.excluded := by
  simp [isEffectivelyExcluded, excludedAbove, db.expr_eq_ok_iff.mpr h, bind, Except.bind]

namespace Forest

variable (hf : db.Forest) {id : ExprId} {e : Expression}

include hf

/-- Whether a flag is set above a node is what mutes its owner. -/
theorem lineage_any (h : db.expr? id = some e) :
    (db.lineage e.parent).any (fun _ node => node.excluded) = .ok (db.mutedOwner e.parent) := by
  revert e
  suffices hex : ∀ e, db.expr? id = some e →
      ∃ b, (db.lineage e.parent).any (fun _ node => node.excluded) = .ok b by
    intro e h
    by_cases hp : ∃ p, e.parent = .expr p
    · obtain ⟨p, hp⟩ := hp
      obtain ⟨ep, hep, -⟩ := hf.parent h hp
      obtain ⟨b, hb⟩ := hex e h
      rw [hp, hf.lineage_expr hep, Lineage.any] at hb ⊢
      rw [mutedOwner, muted, isEffectivelyExcluded_of_expr? hep, hb, Checked.getD]
    · have htop := parentExpr?_eq_none fun p h => hp ⟨p, h⟩
      rw [lineage_top htop, Lineage.any, mutedOwner]
      exact fun p h => hp ⟨p, h⟩
  intro e h
  refine hf.induction_up (P := fun id => ∀ e, db.expr? id = some e →
    ∃ b, (db.lineage e.parent).any (fun _ node => node.excluded) = .ok b) ?_ h e h
  intro id e he ih e' he'
  cases he.symm.trans he'
  by_cases hp : ∃ p, e.parent = .expr p
  · obtain ⟨p, hp⟩ := hp
    obtain ⟨ep, hep, -⟩ := hf.parent he hp
    obtain ⟨b, hb⟩ := ih p hp ep hep
    rw [hp, hf.lineage_expr hep, Lineage.any, hb]
    cases ep.excluded
    · exact ⟨b, rfl⟩
    · exact ⟨true, rfl⟩
  · exact ⟨false, by rw [lineage_top (parentExpr?_eq_none fun p h => hp ⟨p, h⟩), Lineage.any]⟩

/-- The walk up for flags comes to its end. -/
theorem excludedAbove_eq (h : db.expr? id = some e) :
    db.excludedAbove id = .ok (db.mutedOwner e.parent) := by
  simp [excludedAbove, db.expr_eq_ok_iff.mpr h, bind, Except.bind, hf.lineage_any h]

/-- A node is excluded in effect just if it is muted. -/
theorem isEffectivelyExcluded_eq (h : db.expr? id = some e) :
    db.isEffectivelyExcluded id = .ok (db.muted id) := by
  rw [muted, isEffectivelyExcluded_of_expr? h, hf.lineage_any h]
  cases e.excluded <;> rfl

/-- A node is muted by its own exclusion or by its parent. -/
theorem muted_eq (h : db.expr? id = some e) :
    db.muted id = (e.excluded || db.mutedOwner e.parent) := by
  rw [muted, isEffectivelyExcluded_of_expr? h, hf.lineage_any h]
  cases e.excluded <;> rfl

/-- A node is muted when a node that it is or is under is excluded. -/
theorem muted_iff (h : db.expr? id = some e) :
    db.muted id = true ↔
      ∃ x ex, ReflTransGen db.Under id x ∧ db.expr? x = some ex ∧ ex.excluded = true := by
  refine hf.induction_up (P := fun id => db.muted id = true ↔
    ∃ x ex, ReflTransGen db.Under id x ∧ db.expr? x = some ex ∧ ex.excluded = true) ?_ h
  intro id e he ih
  rw [hf.muted_eq he, Bool.or_eq_true]
  constructor
  · rintro (hx | howner)
    · exact ⟨id, e, .refl, he, hx⟩
    · cases hp : e.parent with
      | expr p =>
        rw [hp] at howner
        obtain ⟨x, ex, hreach, hex, hx⟩ := (ih p hp).mp howner
        exact ⟨x, ex, hreach.head ⟨e, he, hp⟩, hex, hx⟩
      | detached => rw [hp] at howner; cases howner
      | stmt s => rw [hp] at howner; cases howner
  · rintro ⟨x, ex, hreach, hex, hx⟩
    rcases ReflTransGen.cases_head hreach with rfl | ⟨p, ⟨e', he', hp⟩, hrest⟩
    · cases he.symm.trans hex
      exact .inl hx
    · cases he.symm.trans he'
      rw [hp]
      exact .inr ((ih p hp).mpr ⟨x, ex, hrest, hex, hx⟩)

/-- What is under a muted node is muted. -/
theorem muted_of_mem_nodes (h : db.expr? id = some e) (hm : db.muted id = true) {y : ExprId}
    (hy : y ∈ db.nodes id) : db.muted y = true := by
  obtain ⟨ey, hey⟩ := hf.expr?_of_mem_nodes h hy
  obtain ⟨x, ex, hreach, hex, hx⟩ := (hf.muted_iff h).mp hm
  exact (hf.muted_iff hey).mpr ⟨x, ex, ((hf.mem_nodes_iff h).mp hy).trans hreach, hex, hx⟩

end Forest

/-! ## Depth -/

/-- Steps from the top of the tree; steps between gates of one family do not count. -/
def depth (db : Database) (id : ExprId) : UInt32 := Checked.getD (db.depthOf id) 0

/-- The depth of a child, given that of the parent. -/
def stepDepth (db : Database) (p c : ExprId) (depth : UInt32) : Checked UInt32 := do
  let isLeft : Bool := (← db.expr p).left = some c
  db.childDepth p isLeft depth

theorem depthAlong_cons_cons (a b : ExprId) (l : List ExprId) (d : UInt32) :
    db.depthAlong d (a :: b :: l) = db.stepDepth a b d >>= fun d => db.depthAlong d (b :: l) := by
  simp only [depthAlong, stepDepth, bind, Except.bind]
  cases db.expr a <;> rfl

/-- The last step of a path is counted last. -/
theorem depthAlong_append (l : List ExprId) (p c : ExprId) (d : UInt32) :
    db.depthAlong d (l ++ [p, c]) = db.depthAlong d (l ++ [p]) >>= db.stepDepth p c := by
  induction l generalizing d with
  | nil =>
    rw [List.nil_append, List.nil_append, depthAlong_cons_cons]
    simp only [depthAlong, bind, Except.bind]
    cases db.stepDepth p c d <;> rfl
  | cons a l ih =>
    cases l with
    | nil =>
      have ih := fun d => ih d
      simp only [List.cons_append, List.nil_append] at ih ⊢
      rw [depthAlong_cons_cons, depthAlong_cons_cons, bind_assoc]
      simp only [ih]
    | cons b l =>
      simp only [List.cons_append] at ih ⊢
      rw [depthAlong_cons_cons, depthAlong_cons_cons, bind_assoc]
      simp only [ih]

/-- The depth of a child: one more than its parent's, unless both are gates of one family. -/
def childLevel (parent child : Operator) (depth : UInt32) : Checked UInt32 :=
  if parent.sameFamily child then .ok depth else Counter.addOr .depthOverflow depth 1

/-- A node without a parent is at the top level. -/
theorem depthOf_top {id : ExprId} {e : Expression} (h : db.expr? id = some e)
    (hp : e.parentExpr? = none) : db.depthOf id = .ok 0 := by
  rw [depthOf, ancestors_top h hp]
  rfl

namespace Forest

variable (hf : db.Forest) {id : ExprId} {e : Expression}

include hf

/-- One step down adds a level, unless both ends are gates of one family. -/
theorem stepDepth_eq {p : ExprId} {ep : Expression} (hep : db.expr? p = some ep)
    (h : db.expr? id = some e) (hp : e.parent = .expr p) (d : UInt32) :
    db.stepDepth p id d = childLevel ep.op e.op d := by
  have hchild : id ∈ ep.children := (hf.mem_children_iff hep).mpr ⟨e, h, hp⟩
  have hside : (if ep.left = some id then ep.left else ep.right) = some id := by
    split
    · assumption
    · rename_i hl
      exact (Expression.mem_children.mp hchild).resolve_left hl
  simp only [stepDepth, childDepth, childLevel, db.expr_eq_ok_iff.mpr hep, bind, Except.bind,
    decide_eq_true_eq, hside, db.expr_eq_ok_iff.mpr h]

/-- The level of a node follows from that of its parent. -/
theorem depthOf_expr {p : ExprId} {ep : Expression} (hep : db.expr? p = some ep)
    (h : db.expr? id = some e) (hp : e.parent = .expr p) :
    db.depthOf id = db.depthOf p >>= childLevel ep.op e.op := by
  rw [depthOf, depthOf, hf.ancestors_expr h hp]
  cases db.ancestors p with
  | error fault => rfl
  | ok l =>
    simp only [Except.map, bind, Except.bind, List.reverse_cons, List.append_assoc,
      List.singleton_append]
    rw [depthAlong_append]
    cases db.depthAlong 0 (l.reverse ++ [p]) with
    | error fault => rfl
    | ok d => exact hf.stepDepth_eq hep h hp d

/-- There are fewer levels than nodes on the path to the top, so that depths fit into a word. -/
theorem depthOf_lt_length (h : db.expr? id = some e) {l : List ExprId} (hl : Path db id l) :
    ∃ d, db.depthOf id = .ok d ∧ d.toNat < l.length := by
  have hword := hl.length_le_word hf
  induction hl generalizing e with
  | top he hp => exact ⟨0, depthOf_top he hp, by simp⟩
  | up he hp hl ih =>
    cases h.symm.trans he
    obtain ⟨ep, hep, -⟩ := hf.parent he hp
    rw [List.length_cons] at hword ⊢
    obtain ⟨d, hd, hlt⟩ := ih hep (by omega)
    rw [hf.depthOf_expr hep he hp, hd]
    simp only [bind, Except.bind, childLevel]
    split
    · exact ⟨d, rfl, by omega⟩
    · have hadd : (UInt32.ofNat (d.toNat + 1)).toNat = d.toNat + 1 :=
        UInt32.toNat_ofNat_of_lt' (by omega)
      exact ⟨_, Counter.addOr_eq_ok_iff.mpr hadd, by omega⟩

/-- The level of every node can be told. -/
theorem depthOf_eq (h : db.expr? id = some e) : db.depthOf id = .ok (db.depth id) := by
  obtain ⟨l, hl⟩ := hf.exists_path h
  obtain ⟨d, hd, -⟩ := hf.depthOf_lt_length h hl
  rw [depth, hd, Checked.getD]

omit hf in
theorem depth_top (h : db.expr? id = some e) (hp : e.parentExpr? = none) : db.depth id = 0 := by
  rw [depth, depthOf_top h hp, Checked.getD]

/-- The level of a child follows from that of the node. -/
theorem childLevel_depth {c : ExprId} {ec : Expression} (h : db.expr? id = some e)
    (hc : db.expr? c = some ec) (hp : ec.parent = .expr id) :
    childLevel e.op ec.op (db.depth id) = .ok (db.depth c) := by
  rw [← hf.depthOf_eq hc, hf.depthOf_expr h hc hp, hf.depthOf_eq h]
  rfl

end Forest

/-! ## Constancy -/

/-- Every leaf below the node is a constant. -/
def allConstant (db : Database) (id : ExprId) : Bool := Checked.getD (db.isConstantOnly id) false

/-- Every leaf below a child link is a constant. -/
def branchConstant (db : Database) : Option ExprId → Bool
  | none => true
  | some c => db.allConstant c

namespace Forest

variable (hf : db.Forest) {id : ExprId} {e : Expression}

include hf

theorem constantOnly_node (h : db.expr? id = some e)
    (hl : (db.branch e.left).constantOnly = .ok (db.branchConstant e.left))
    (hr : (db.branch e.right).constantOnly = .ok (db.branchConstant e.right)) :
    db.isConstantOnly id =
      .ok (e.constantAfter (db.branchConstant e.left && db.branchConstant e.right)) := by
  rw [isConstantOnly, hf.tree_eq h, Tree.constantOnly, hl, hr, Expression.constantAfter]
  cases e.isLeaf <;> cases db.branchConstant e.left <;> rfl

/-- A side without a node is constant; one with a node is as the node is. -/
theorem branch_constantOnly (h : db.expr? id = some e) {o : Option ExprId}
    (ho : ∀ c, o = some c → c ∈ e.children) :
    (db.branch o).constantOnly = .ok (db.branchConstant o) := by
  cases o with
  | none => rfl
  | some c =>
    obtain ⟨ec, hec, -⟩ := hf.child h (ho c rfl)
    suffices hex : ∃ b, db.isConstantOnly c = .ok b by
      obtain ⟨b, hb⟩ := hex
      rw [branchConstant, allConstant, hb, Checked.getD]
      exact hb
    refine hf.induction_down (P := fun id => ∃ b, db.isConstantOnly id = .ok b) ?_ hec
    intro id e he ih
    have side {o : Option ExprId} (ho : ∀ c, o = some c → c ∈ e.children) :
        (db.branch o).constantOnly = .ok (db.branchConstant o) := by
      cases o with
      | none => rfl
      | some c =>
        obtain ⟨b, hb⟩ := ih c (ho c rfl)
        rw [branchConstant, allConstant, hb, Checked.getD]
        exact hb
    exact ⟨_, hf.constantOnly_node he (side fun c h => Expression.mem_children.mpr (.inl h))
      (side fun c h => Expression.mem_children.mpr (.inr h))⟩

/-- The walk down for constants comes to its end. -/
theorem isConstantOnly_eq (h : db.expr? id = some e) :
    db.isConstantOnly id = .ok (db.allConstant id) := by
  have hb := hf.constantOnly_node h
    (hf.branch_constantOnly h fun c h => Expression.mem_children.mpr (.inl h))
    (hf.branch_constantOnly h fun c h => Expression.mem_children.mpr (.inr h))
  rw [allConstant, hb, Checked.getD]

/-- A leaf is constant by its operator, another node by its children. -/
theorem allConstant_eq (h : db.expr? id = some e) :
    db.allConstant id =
      e.constantAfter (db.branchConstant e.left && db.branchConstant e.right) := by
  have hb := hf.constantOnly_node h
    (hf.branch_constantOnly h fun c h => Expression.mem_children.mpr (.inl h))
    (hf.branch_constantOnly h fun c h => Expression.mem_children.mpr (.inr h))
  rw [allConstant, hb, Checked.getD]

/-- What is all constant has constant children. -/
theorem allConstant_child (h : db.expr? id = some e) (hall : db.allConstant id = true) {c : ExprId}
    (hc : c ∈ e.children) : db.allConstant c = true := by
  have hleaf : e.isLeaf = false := by
    rcases Expression.mem_children.mp hc with hl | hr
    · simp [Expression.isLeaf, hl]
    · simp [Expression.isLeaf, hr]
  rw [hf.allConstant_eq h, Expression.constantAfter, hleaf, if_neg Bool.false_ne_true,
    Bool.and_eq_true] at hall
  rcases Expression.mem_children.mp hc with hl | hr
  · rw [hl] at hall
    exact hall.1
  · rw [hr] at hall
    exact hall.2

/-- What is under a constant node is constant. -/
theorem allConstant_of_mem_nodes (h : db.expr? id = some e) (hall : db.allConstant id = true)
    {y : ExprId} (hy : y ∈ db.nodes id) : db.allConstant y = true := by
  have hreach := (hf.mem_nodes_iff h).mp hy
  induction hreach using ReflTransGen.head_induction_on with
  | refl => exact hall
  | head hstep hrest ih =>
    obtain ⟨ex, hex, hp⟩ := hstep
    obtain ⟨ep, hep, hmem⟩ := hf.parent hex hp
    exact hf.allConstant_child hep (ih ((hf.mem_nodes_iff h).mpr hrest)) hmem

end Forest

/-! ## Walks -/

/-- Where a node of a forest sits. -/
def place (db : Database) (id : ExprId) : Placement :=
  ⟨id, db.depth id, db.muted id, db.allConstant id⟩

/-- The step at a node, with the placement found from the node alone. -/
def visitNode {σ : Type} (db : Database) (step : σ → Expression → Placement → Checked σ) (s : σ)
    (id : ExprId) : Checked σ := do
  let p ← db.placement id
  step s (← db.expr id) p

namespace Forest

variable (hf : db.Forest) {id : ExprId} {e : Expression}

include hf

/-- Where a node stands can be told from the node alone. -/
theorem placement_eq (h : db.expr? id = some e) : db.placement id = .ok (db.place id) := by
  rw [placement, hf.depthOf_eq h, hf.isEffectivelyExcluded_eq h, hf.isConstantOnly_eq h]
  rfl

/-- To visit one node is to take its step where it stands. -/
theorem visitNode_eq {σ : Type} {step : σ → Expression → Placement → Checked σ} {s : σ}
    (h : db.expr? id = some e) : db.visitNode step s id = step s e (db.place id) := by
  rw [visitNode, hf.placement_eq h, db.expr_eq_ok_iff.mpr h]
  rfl

/-- A walk is a pass over the nodes in post-order, each at its own placement. -/
theorem visit_tree {σ : Type} (step : σ → Expression → Placement → Checked σ)
    (h : db.expr? id = some e) (s : σ) :
    (db.tree id).visit step (db.depth id) (db.mutedOwner e.parent) s =
      (db.nodes id).foldlM (db.visitNode step) s >>= fun s => .ok (s, db.allConstant id) := by
  revert e s
  suffices hall : ∀ e, db.expr? id = some e → ∀ s,
      (db.tree id).visit step (db.depth id) (db.mutedOwner e.parent) s =
        (db.nodes id).foldlM (db.visitNode step) s >>= fun s => .ok (s, db.allConstant id) from
    fun {e} h s => hall e h s
  intro e h
  refine hf.induction_down (P := fun id => ∀ e, db.expr? id = some e → ∀ s,
    (db.tree id).visit step (db.depth id) (db.mutedOwner e.parent) s =
      (db.nodes id).foldlM (db.visitNode step) s >>= fun s => .ok (s, db.allConstant id)) ?_ h e h
  intro id e he ih e' he' s
  cases he.symm.trans he'
  -- either side of a node, from whatever state the walk comes to it
  have side {o : Option ExprId} (ho : ∀ c, o = some c → c ∈ e.children) (s : σ) :
      ∃ d, (db.branch o).depthUnder e.op (db.depth id) = .ok d ∧
        (db.branch o).visit step d (db.muted id) s =
          (db.branchNodes o).foldlM (db.visitNode step) s >>=
            fun s => .ok (s, db.branchConstant o) := by
    cases o with
    | none => exact ⟨_, rfl, rfl⟩
    | some c =>
      obtain ⟨ec, hec, hp⟩ := hf.child he (ho c rfl)
      refine ⟨db.depth c, ?_, ?_⟩
      · rw [branch, hf.tree_eq hec]
        exact hf.childLevel_depth he hec hp
      · have hvisit := ih c (ho c rfl) ec hec s
        rwa [hp] at hvisit
  have hmuted : (db.mutedOwner e.parent || e.excluded) = db.muted id := by
    rw [hf.muted_eq he, Bool.or_comm]
  obtain ⟨dl, hdl, hvl⟩ := side (fun c h => Expression.mem_children.mpr (.inl h)) s
  rw [hf.tree_eq he, Tree.visit, hmuted, hdl, hf.nodes_eq he, List.foldlM_append,
    List.foldlM_append]
  simp only [bind, Except.bind] at hvl ⊢
  rw [hvl]
  cases hl : (db.branchNodes e.left).foldlM (db.visitNode step) s with
  | error fault => rfl
  | ok sl =>
    obtain ⟨dr, hdr, hvr⟩ := side (fun c h => Expression.mem_children.mpr (.inr h)) sl
    simp only [bind, Except.bind] at hvr ⊢
    rw [hdr]
    simp only [hvr]
    cases hr : (db.branchNodes e.right).foldlM (db.visitNode step) sl with
    | error fault => rfl
    | ok sr =>
      simp only [List.foldlM_cons, List.foldlM_nil, hf.visitNode_eq he, ← hf.allConstant_eq he]
      rw [place]
      cases step sr e ⟨id, db.depth id, db.muted id, db.allConstant id⟩ <;> rfl

/-- The walk over a statement's tree starts at its root, at the top and with nothing muted. -/
theorem visit_root {σ : Type} (step : σ → Expression → Placement → Checked σ) {stmt : StmtId}
    {st : Statement} (hs : db.stmt? stmt = some st) (s : σ) :
    (db.tree st.root).visit step 0 false s =
      (db.nodes st.root).foldlM (db.visitNode step) s >>=
        fun s => .ok (s, db.allConstant st.root) := by
  obtain ⟨er, her, hp⟩ := hf.root hs
  have hvisit := hf.visit_tree step her s
  rwa [hp, depth_top her (by rw [Expression.parentExpr?, hp]; rfl)] at hvisit

end Forest

end LogicCoverage.Database
