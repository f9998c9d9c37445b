import LogicCoverage.Lineage
import LogicCoverage.Proofs.Forest
import LogicCoverage.Tree
import Mathlib.Data.List.Nodup

/-!
# Lineages and trees of a forest

In a forest neither a climb nor a descent is cut short, since the nodes from a node up to the top
are distinct. Hence lineages and trees unfold link by link, and the tree below a node consists of
that node and of the nodes under it, each once. Trees of different statements are disjoint.
-/

namespace LogicCoverage

open Relation

/-- The result of a computation, or a default where there is none. -/
def Checked.getD {α : Type} (x : Checked α) (default : α) : α :=
  match x with
  | .ok a => a
  | .error _ => default

/-- There are at most as many distinct ids as there are places. -/
theorem length_le_of_index_lt {l : List ExprId} {n : Nat} (hn : l.Nodup)
    (h : ∀ id ∈ l, id.index.toNat < n) : l.length ≤ n := by
  have hmap : (l.map fun id => id.index.toNat).Nodup :=
    hn.map fun _ _ h => ExprId.toNat_index_inj.mp h
  have hsub : (l.map fun id => id.index.toNat) ⊆ List.range n := by
    intro i hi
    obtain ⟨id, hid, rfl⟩ := List.mem_map.mp hi
    exact List.mem_range.mpr (h id hid)
  simpa using (hmap.subperm hsub).length_le

namespace Database

variable {db : Database}

/-! ## Paths to the top -/

/-- The nodes from a node up to the top of its tree, the node first. -/
inductive Path (db : Database) : ExprId → List ExprId → Prop where
  | top {id e} : db.expr? id = some e → e.parentExpr? = none → Path db id [id]
  | up {id e p l} : db.expr? id = some e → e.parent = .expr p → Path db p l → Path db id (id :: l)

namespace Path

variable {id : ExprId} {l : List ExprId}

/-- There are nodes all along a path. -/
theorem expr? (h : Path db id l) {x : ExprId} (hx : x ∈ l) : ∃ e, db.expr? x = some e := by
  induction h with
  | top he _ => exact ⟨_, (List.mem_singleton.mp hx) ▸ he⟩
  | up he _ _ ih =>
    rcases List.mem_cons.mp hx with rfl | hx
    · exact ⟨_, he⟩
    · exact ih hx

/-- A path leads upwards. -/
theorem reaches (h : Path db id l) {x : ExprId} (hx : x ∈ l) : ReflTransGen db.Under id x := by
  induction h with
  | top _ _ => exact (List.mem_singleton.mp hx) ▸ .refl
  | up he hp _ ih =>
    rcases List.mem_cons.mp hx with rfl | hx
    · exact .refl
    · exact (ih hx).head ⟨_, he, hp⟩

/-- No path in a forest meets a node twice. -/
theorem nodup (h : Path db id l) (hf : db.Forest) : l.Nodup := by
  induction h with
  | top _ _ => exact List.nodup_singleton _
  | up he hp hl ih =>
    refine List.nodup_cons.mpr ⟨fun hmem => ?_, ih⟩
    exact hf.acyclic _ (TransGen.head' ⟨_, he, hp⟩ (hl.reaches hmem))

/-- No path in a forest is longer than the table. -/
theorem length_le_size (h : Path db id l) (hf : db.Forest) : l.length ≤ db.exprs.size := by
  apply length_le_of_index_lt (h.nodup hf)
  intro x hx
  obtain ⟨e, he⟩ := h.expr? hx
  exact (Array.getElem?_eq_some_iff.mp he).1

/-- No path in a forest is too long for ids to count. -/
theorem length_le_word (h : Path db id l) (hf : db.Forest) : l.length ≤ UInt32.size :=
  length_le_of_index_lt (h.nodup hf) fun x _ => x.index.toNat_lt_size

end Path

theorem parentExpr?_eq_none {e : Expression} (h : ∀ p, e.parent ≠ .expr p) :
    e.parentExpr? = none := by
  unfold Expression.parentExpr?
  cases hp : e.parent with
  | expr p => exact (h p hp).elim
  | detached => rfl
  | stmt s => rfl

theorem parent_of_parentExpr? {e : Expression} {p : ExprId} (h : e.parentExpr? = some p) :
    e.parent = .expr p := by
  unfold Expression.parentExpr? at h
  cases hp : e.parent with
  | expr q => rw [hp] at h; cases h; rfl
  | detached => rw [hp] at h; cases h
  | stmt s => rw [hp] at h; cases h

/-- From every node of a forest, a path leads to a node without a parent expression. -/
theorem Forest.exists_path (hf : db.Forest) {id : ExprId} {e : Expression}
    (h : db.expr? id = some e) : ∃ l, Path db id l := by
  refine hf.induction_up (P := fun id => ∃ l, Path db id l) (fun id e he ih => ?_) h
  by_cases hp : ∃ p, e.parent = .expr p
  · obtain ⟨p, hp⟩ := hp
    obtain ⟨l, hl⟩ := ih p hp
    exact ⟨id :: l, .up he hp hl⟩
  · exact ⟨[id], .top he (parentExpr?_eq_none fun p h => hp ⟨p, h⟩)⟩

/-! ## Lineages -/

/-- A climb ends where there is no parent expression. -/
theorem climb_eq_top {e : Expression} {fuel : Nat} (h : e.parentExpr? = none) :
    db.climb fuel e.parent = .top := by
  unfold Expression.parentExpr? at h
  cases hp : e.parent with
  | expr p => rw [hp] at h; cases h
  | detached => simp [climb]
  | stmt s => simp [climb]

/-- One step of a climb, while there is fuel. -/
theorem climb_succ {id : ExprId} {e : Expression} (h : db.expr? id = some e) (fuel : Nat) :
    db.climb (fuel + 1) (.expr id) = .up id e (db.climb fuel e.parent) := by
  simp [climb, (db.expr_eq_ok_iff).mpr h]

/-- Fuel beyond the length of the path to the top makes no difference to a climb. -/
theorem Path.climb_eq {id : ExprId} {l : List ExprId} (h : Path db id l) {fuel fuel' : Nat}
    (hl : l.length ≤ fuel) (hl' : l.length ≤ fuel') :
    db.climb fuel (.expr id) = db.climb fuel' (.expr id) := by
  induction h generalizing fuel fuel' with
  | top he hp =>
    obtain ⟨fuel, rfl⟩ := Nat.exists_eq_succ_of_ne_zero (by grind : fuel ≠ 0)
    obtain ⟨fuel', rfl⟩ := Nat.exists_eq_succ_of_ne_zero (by grind : fuel' ≠ 0)
    rw [climb_succ he, climb_succ he, climb_eq_top hp, climb_eq_top hp]
  | up he hp hl₁ ih =>
    rw [List.length_cons] at hl hl'
    obtain ⟨fuel, rfl⟩ := Nat.exists_eq_succ_of_ne_zero (by omega : fuel ≠ 0)
    obtain ⟨fuel', rfl⟩ := Nat.exists_eq_succ_of_ne_zero (by omega : fuel' ≠ 0)
    rw [climb_succ he, climb_succ he, hp,
      ih (Nat.le_of_succ_le_succ hl) (Nat.le_of_succ_le_succ hl')]

namespace Forest

variable (hf : db.Forest)

include hf

/-- The lineage of an owner that is a node begins with that node. -/
theorem lineage_expr {p : ExprId} {e : Expression} (h : db.expr? p = some e) :
    db.lineage (.expr p) = .up p e (db.lineage e.parent) := by
  rw [lineage, climb_succ h]
  congr 1
  by_cases hp : ∃ q, e.parent = .expr q
  · obtain ⟨q, hp⟩ := hp
    obtain ⟨eq, hq, -⟩ := hf.parent h hp
    obtain ⟨l, hl⟩ := hf.exists_path hq
    have hlen := (Path.up h hp hl).length_le_size hf
    rw [List.length_cons] at hlen
    rw [lineage, hp]
    exact hl.climb_eq (by omega) (by omega)
  · have htop := parentExpr?_eq_none fun q h => hp ⟨q, h⟩
    rw [lineage, climb_eq_top htop, climb_eq_top htop]

end Forest

theorem lineage_top {e : Expression} (h : e.parentExpr? = none) : db.lineage e.parent = .top :=
  climb_eq_top h

/-! ## Trees -/

/-- The tree below a child link. -/
def branch (db : Database) : Option ExprId → Tree
  | none => .empty
  | some c => db.tree c

/-- One step down, while there is fuel. -/
theorem descend_succ {id : ExprId} {e : Expression} (h : db.expr? id = some e) (fuel : Nat) :
    db.descend (fuel + 1) (some id) =
      .node id e (fun _ => db.descend fuel e.left) (fun _ => db.descend fuel e.right) := by
  simp [descend, (db.expr_eq_ok_iff).mpr h]

theorem descend_none (fuel : Nat) : db.descend fuel none = .empty := by
  cases fuel <;> simp [descend]

namespace Forest

variable (hf : db.Forest)

include hf

/-- A descent has fuel for the nodes that are not on the path to the top, and more makes no
difference. -/
theorem descend_eq {id : ExprId} {e : Expression} (h : db.expr? id = some e) {l : List ExprId}
    (hl : Path db id l) {fuel fuel' : Nat} (hfuel : db.exprs.size + 1 ≤ fuel + l.length)
    (hfuel' : db.exprs.size + 1 ≤ fuel' + l.length) :
    db.descend fuel (some id) = db.descend fuel' (some id) := by
  revert l fuel fuel'
  refine hf.induction_down (P := fun id => ∀ {l : List ExprId}, Path db id l → ∀ {fuel fuel' : Nat},
    db.exprs.size + 1 ≤ fuel + l.length → db.exprs.size + 1 ≤ fuel' + l.length →
      db.descend fuel (some id) = db.descend fuel' (some id)) ?_ h
  intro id e he ih l hl fuel fuel' hfuel hfuel'
  have hlen := hl.length_le_size hf
  obtain ⟨fuel, rfl⟩ := Nat.exists_eq_succ_of_ne_zero (show fuel ≠ 0 by omega)
  obtain ⟨fuel', rfl⟩ := Nat.exists_eq_succ_of_ne_zero (show fuel' ≠ 0 by omega)
  have side {o : Option ExprId} (ho : ∀ c, o = some c → c ∈ e.children) :
      db.descend fuel o = db.descend fuel' o := by
    cases o with
    | none => rw [descend_none, descend_none]
    | some c =>
      obtain ⟨ec, hec, hp⟩ := hf.child he (ho c rfl)
      refine ih c (ho c rfl) (.up hec hp hl) ?_ ?_ <;> rw [List.length_cons] <;> omega
  rw [descend_succ he, descend_succ he, side fun c h => Expression.mem_children.mpr (.inl h),
    side fun c h => Expression.mem_children.mpr (.inr h)]

/-- The tree below a node unfolds into the trees below its children. -/
theorem tree_eq {id : ExprId} {e : Expression} (h : db.expr? id = some e) :
    db.tree id = .node id e (fun _ => db.branch e.left) (fun _ => db.branch e.right) := by
  obtain ⟨l, hl⟩ := hf.exists_path h
  have side {o : Option ExprId} (ho : ∀ c, o = some c → c ∈ e.children) :
      db.descend db.exprs.size o = db.branch o := by
    cases o with
    | none => exact descend_none _
    | some c =>
      obtain ⟨ec, hec, hp⟩ := hf.child h (ho c rfl)
      have hpos : 0 < l.length := by cases hl <;> simp
      refine hf.descend_eq hec (.up hec hp hl) ?_ ?_ <;> rw [List.length_cons] <;> omega
  rw [tree, descend_succ h, side fun c h => Expression.mem_children.mpr (.inl h),
    side fun c h => Expression.mem_children.mpr (.inr h)]

end Forest

/-! ## The nodes of a tree -/

/-- The nodes of the tree below a node, children first. -/
def nodes (db : Database) (id : ExprId) : List ExprId := Checked.getD (db.subtree id) []

/-- The nodes of the tree below a child link. -/
def branchNodes (db : Database) : Option ExprId → List ExprId
  | none => []
  | some c => db.nodes c

/-- What is below a link is below the child it leads to. -/
theorem mem_branchNodes {o : Option ExprId} {y : ExprId} :
    y ∈ db.branchNodes o ↔ ∃ c, o = some c ∧ y ∈ db.nodes c := by
  cases o <;> simp [branchNodes]

namespace Forest

variable (hf : db.Forest) {id : ExprId} {e : Expression}

include hf

/-- In a forest, children and parents are the same links, seen from either end. -/
theorem mem_children_iff (h : db.expr? id = some e) {c : ExprId} :
    c ∈ e.children ↔ db.Under c id := by
  constructor
  · exact fun hc => hf.child h hc
  · rintro ⟨ec, hec, hp⟩
    obtain ⟨e', he', hc⟩ := hf.parent hec hp
    cases h.symm.trans he'
    exact hc

/-- The subtree of a node exists. -/
theorem subtree_eq (h : db.expr? id = some e) : db.subtree id = .ok (db.nodes id) := by
  suffices hex : ∃ l, db.subtree id = .ok l by
    obtain ⟨l, hl⟩ := hex
    rw [nodes, hl, Checked.getD]
  refine hf.induction_down (P := fun id => ∃ l, db.subtree id = .ok l) ?_ h
  intro id e he ih
  have side {o : Option ExprId} (ho : ∀ c, o = some c → c ∈ e.children) :
      ∃ l, (db.branch o).postOrder = .ok l := by
    cases o with
    | none => exact ⟨[], rfl⟩
    | some c => exact ih c (ho c rfl)
  obtain ⟨l, hl⟩ := side fun c h => Expression.mem_children.mpr (.inl h)
  obtain ⟨r, hr⟩ := side fun c h => Expression.mem_children.mpr (.inr h)
  refine ⟨l ++ r ++ [id], ?_⟩
  rw [subtree, hf.tree_eq he, Tree.postOrder_node, hl, hr]
  rfl

/-- Children come before their parent, the left one first. -/
theorem nodes_eq (h : db.expr? id = some e) :
    db.nodes id = db.branchNodes e.left ++ db.branchNodes e.right ++ [id] := by
  have side {o : Option ExprId} (ho : ∀ c, o = some c → c ∈ e.children) :
      (db.branch o).postOrder = .ok (db.branchNodes o) := by
    cases o with
    | none => rfl
    | some c =>
      obtain ⟨ec, hec, -⟩ := hf.child h (ho c rfl)
      exact hf.subtree_eq hec
  rw [nodes, subtree, hf.tree_eq h, Tree.postOrder_node,
    side fun c h => Expression.mem_children.mpr (.inl h),
    side fun c h => Expression.mem_children.mpr (.inr h)]
  rfl

/-- A node is below another if it is that node, or below one of its children. -/
theorem mem_nodes_iff_children (h : db.expr? id = some e) {y : ExprId} :
    y ∈ db.nodes id ↔ y = id ∨ ∃ c ∈ e.children, y ∈ db.nodes c := by
  rw [hf.nodes_eq h]
  simp only [List.mem_append, mem_branchNodes, List.mem_singleton, Expression.mem_children]
  grind

/-- The nodes of the tree below a node are that node and those under it. -/
theorem mem_nodes_iff (h : db.expr? id = some e) {y : ExprId} :
    y ∈ db.nodes id ↔ ReflTransGen db.Under y id := by
  revert y
  refine hf.induction_down (P := fun id => ∀ {y}, y ∈ db.nodes id ↔ ReflTransGen db.Under y id) ?_ h
  intro id e he ih y
  rw [hf.mem_nodes_iff_children he, ReflTransGen.cases_tail_iff]
  constructor
  · rintro (rfl | ⟨c, hc, hy⟩)
    · exact .inl rfl
    · exact .inr ⟨c, (ih c hc).mp hy, (hf.mem_children_iff he).mp hc⟩
  · rintro (rfl | ⟨c, hy, hc⟩)
    · exact .inl rfl
    · have hc := (hf.mem_children_iff he).mpr hc
      exact .inr ⟨c, hc, (ih c hc).mpr hy⟩

theorem self_mem_nodes (h : db.expr? id = some e) : id ∈ db.nodes id :=
  (hf.mem_nodes_iff h).mpr .refl

/-- Everything in the tree below a node is a node. -/
theorem expr?_of_mem_nodes (h : db.expr? id = some e) {y : ExprId} (hy : y ∈ db.nodes id) :
    ∃ ey, db.expr? y = some ey := by
  rcases ReflTransGen.cases_head ((hf.mem_nodes_iff h).mp hy) with rfl | ⟨_, ⟨ey, hey, -⟩, -⟩
  · exact ⟨e, h⟩
  · exact ⟨ey, hey⟩

/-- The tree below a node lies within every tree that contains the node. -/
theorem nodes_trans (h : db.expr? id = some e) {x y : ExprId} (hy : y ∈ db.nodes id)
    (hx : x ∈ db.nodes y) : x ∈ db.nodes id := by
  obtain ⟨ey, hey⟩ := hf.expr?_of_mem_nodes h hy
  exact (hf.mem_nodes_iff h).mpr
    (((hf.mem_nodes_iff hey).mp hx).trans ((hf.mem_nodes_iff h).mp hy))

/-- Of two nodes above a third, one is above the other. -/
theorem nodes_total {x y a : ExprId} {ex ey : Expression} (hx : db.expr? x = some ex)
    (hy : db.expr? y = some ey) (hax : a ∈ db.nodes x) (hay : a ∈ db.nodes y) :
    x ∈ db.nodes y ∨ y ∈ db.nodes x := by
  rw [hf.mem_nodes_iff hx, hf.mem_nodes_iff hy] at *
  exact ReflTransGen.total_of_right_unique Under.right_unique hax hay

/-- No node is below one of its children. -/
theorem notMem_nodes_child (h : db.expr? id = some e) {c : ExprId} (hc : c ∈ e.children) :
    id ∉ db.nodes c := by
  intro hmem
  obtain ⟨ec, hec, -⟩ := hf.child h hc
  exact hf.acyclic c (TransGen.head' ((hf.mem_children_iff h).mp hc)
    ((hf.mem_nodes_iff hec).mp hmem))

/-- The trees below two children of one node are disjoint. -/
theorem disjoint_nodes_children (h : db.expr? id = some e) {c c' : ExprId} (hc : c ∈ e.children)
    (hc' : c' ∈ e.children) (hne : c ≠ c') : List.Disjoint (db.nodes c) (db.nodes c') := by
  intro a ha ha'
  obtain ⟨ec, hec, hp⟩ := hf.child h hc
  obtain ⟨ec', hec', hp'⟩ := hf.child h hc'
  -- A child strictly below another has a parent below it too, and that parent is the common one.
  have apart {x y : ExprId} {ex : Expression} (hex : db.expr? x = some ex)
      (hpx : ex.parent = .expr id) (hy : y ∈ e.children) (hxy : x ≠ y) : x ∉ db.nodes y := by
    intro hmem
    obtain ⟨ey, hey, -⟩ := hf.child h hy
    rcases ReflTransGen.cases_head ((hf.mem_nodes_iff hey).mp hmem) with rfl | ⟨p, hp, hrest⟩
    · exact hxy rfl
    · cases Under.right_unique hp ⟨ex, hex, hpx⟩
      exact hf.notMem_nodes_child h hy ((hf.mem_nodes_iff hey).mpr hrest)
  rcases hf.nodes_total hec hec' ha ha' with hm | hm
  · exact apart hec hp hc' hne hm
  · exact apart hec' hp' hc (Ne.symm hne) hm

/-- No node occurs twice in a tree. -/
theorem nodup_nodes (h : db.expr? id = some e) : (db.nodes id).Nodup := by
  refine hf.induction_down (P := fun id => (db.nodes id).Nodup) ?_ h
  intro id e he ih
  have side {o : Option ExprId} (ho : ∀ c, o = some c → c ∈ e.children) :
      (db.branchNodes o).Nodup := by
    cases o with
    | none => exact List.nodup_nil
    | some c => exact ih c (ho c rfl)
  have hl : ∀ c, e.left = some c → c ∈ e.children := fun c h => Expression.mem_children.mpr (.inl h)
  have hr : ∀ c, e.right = some c → c ∈ e.children := fun c h =>
    Expression.mem_children.mpr (.inr h)
  rw [hf.nodes_eq he, List.nodup_append', List.nodup_append']
  refine ⟨⟨side hl, side hr, ?_⟩, List.nodup_singleton id, ?_⟩
  · intro a ha ha'
    obtain ⟨c, hc, ha⟩ := mem_branchNodes.mp ha
    obtain ⟨c', hc', ha'⟩ := mem_branchNodes.mp ha'
    refine hf.disjoint_nodes_children he (hl c hc) (hr c' hc') ?_ ha ha'
    rintro rfl
    rcases hf.distinct he with hnone | hne
    · rw [hnone] at hc
      cases hc
    · exact hne (hc.trans hc'.symm)
  · intro a ha ha'
    rw [List.mem_singleton] at ha'
    subst ha'
    rcases List.mem_append.mp ha with ha | ha
    · obtain ⟨c, hc, ha⟩ := mem_branchNodes.mp ha
      exact hf.notMem_nodes_child he (hl c hc) ha
    · obtain ⟨c, hc, ha⟩ := mem_branchNodes.mp ha
      exact hf.notMem_nodes_child he (hr c hc) ha

/-! ## The statement that owns a node -/

/-- Only its own root stands above a statement's root. -/
theorem eq_of_root_mem_nodes {s : StmtId} {st : Statement} (hs : db.stmt? s = some st)
    (h : db.expr? id = some e) (hmem : st.root ∈ db.nodes id) : st.root = id := by
  obtain ⟨er, her, hp⟩ := hf.root hs
  rcases ReflTransGen.cases_head ((hf.mem_nodes_iff h).mp hmem) with heq | ⟨p, ⟨er', her', hp'⟩, -⟩
  · exact heq
  · cases her.symm.trans her'
    cases hp.symm.trans hp'

/-- The trees of two statements have no node in common. -/
theorem stmt_eq_of_mem_nodes {s s' : StmtId} {st st' : Statement} (hs : db.stmt? s = some st)
    (hs' : db.stmt? s' = some st') {y : ExprId} (hy : y ∈ db.nodes st.root)
    (hy' : y ∈ db.nodes st'.root) : s = s' := by
  obtain ⟨er, her, hp⟩ := hf.root hs
  obtain ⟨er', her', hp'⟩ := hf.root hs'
  have hroot : st.root = st'.root := by
    rcases hf.nodes_total her her' hy hy' with hm | hm
    · exact hf.eq_of_root_mem_nodes hs her' hm
    · exact (hf.eq_of_root_mem_nodes hs' her hm).symm
  rw [hroot] at her
  cases her.symm.trans her'
  cases hp.symm.trans hp'
  rfl

/-- The nodes above a node are its parent and those above the parent. -/
theorem ancestors_expr (h : db.expr? id = some e) {p : ExprId} (hp : e.parent = .expr p) :
    db.ancestors id = (db.ancestors p).map (p :: ·) := by
  obtain ⟨ep, hep, -⟩ := hf.parent h hp
  simp only [ancestors, db.expr_eq_ok_iff.mpr h, db.expr_eq_ok_iff.mpr hep, hp,
    hf.lineage_expr hep, bind, Except.bind, Lineage.ids]
  cases (db.lineage ep.parent).ids <;> rfl

/-- A node and its parent have one root. -/
theorem rootOf_expr (h : db.expr? id = some e) {p : ExprId} (hp : e.parent = .expr p) :
    db.rootOf id = db.rootOf p := by
  rw [rootOf, rootOf, hf.ancestors_expr h hp]
  cases db.ancestors p with
  | error fault => rfl
  | ok l => cases l <;> rfl

/-- A node and its parent are in one statement. -/
theorem statementOf_expr (h : db.expr? id = some e) {p : ExprId} (hp : e.parent = .expr p) :
    db.statementOf id = db.statementOf p := by
  rw [statementOf, statementOf, hf.rootOf_expr h hp]

end Forest

variable {id : ExprId} {e : Expression}

theorem ancestors_top (h : db.expr? id = some e) (hp : e.parentExpr? = none) :
    db.ancestors id = .ok [] := by
  simp [ancestors, db.expr_eq_ok_iff.mpr h, lineage_top hp, bind, Except.bind, Lineage.ids]

/-- A root is in the statement that owns it. -/
theorem statementOf_stmt (h : db.expr? id = some e) {s : StmtId} (hp : e.parent = .stmt s) :
    db.statementOf id = .ok (some s) := by
  have htop : db.ancestors id = .ok [] := ancestors_top h (by rw [Expression.parentExpr?, hp]; rfl)
  simp [statementOf, rootOf, htop, db.expr_eq_ok_iff.mpr h, hp, bind, Except.bind, pure,
    Except.pure]

/-- Nothing that is detached is in a statement. -/
theorem statementOf_detached (h : db.expr? id = some e) (hp : e.parent = .detached) :
    db.statementOf id = .ok none := by
  have htop : db.ancestors id = .ok [] := ancestors_top h (by rw [Expression.parentExpr?, hp]; rfl)
  simp [statementOf, rootOf, htop, db.expr_eq_ok_iff.mpr h, hp, bind, Except.bind, pure,
    Except.pure]

namespace Forest

variable (hf : db.Forest)

include hf

/-- The owner of every node in a statement's tree is that statement. -/
theorem statementOf_of_mem {s : StmtId} {st : Statement} (hs : db.stmt? s = some st)
    (hmem : id ∈ db.nodes st.root) : db.statementOf id = .ok (some s) := by
  obtain ⟨er, her, hp⟩ := hf.root hs
  have hreach := (hf.mem_nodes_iff her).mp hmem
  induction hreach using ReflTransGen.head_induction_on with
  | refl => exact statementOf_stmt her hp
  | head hstep hrest ih =>
    obtain ⟨ex, hex, hpx⟩ := hstep
    rw [hf.statementOf_expr hex hpx]
    exact ih ((hf.mem_nodes_iff her).mpr hrest)

/-- The owner of a node is found, and the node is in its tree. -/
theorem statementOf_spec (h : db.expr? id = some e) :
    ∃ o, db.statementOf id = .ok o ∧
      ∀ s, o = some s → ∃ st, db.stmt? s = some st ∧ id ∈ db.nodes st.root := by
  refine hf.induction_up (P := fun id => ∃ o, db.statementOf id = .ok o ∧
    ∀ s, o = some s → ∃ st, db.stmt? s = some st ∧ id ∈ db.nodes st.root) ?_ h
  intro id e he ih
  cases hp : e.parent with
  | detached => exact ⟨none, statementOf_detached he hp, nofun⟩
  | stmt s =>
    refine ⟨some s, statementOf_stmt he hp, ?_⟩
    rintro _ ⟨rfl⟩
    obtain ⟨st, hs, rfl⟩ := hf.owner he hp
    exact ⟨st, hs, hf.self_mem_nodes he⟩
  | expr p =>
    obtain ⟨o, ho, hspec⟩ := ih p hp
    refine ⟨o, (hf.statementOf_expr he hp).trans ho, fun s hs => ?_⟩
    obtain ⟨st, hst, hmem⟩ := hspec s hs
    obtain ⟨er, her, -⟩ := hf.root hst
    refine ⟨st, hst, (hf.mem_nodes_iff her).mpr ?_⟩
    exact ((hf.mem_nodes_iff her).mp hmem).head ⟨e, he, hp⟩

end Forest

end Database

end LogicCoverage
