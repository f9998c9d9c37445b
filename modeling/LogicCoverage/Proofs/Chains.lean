import LogicCoverage.Proofs.Points
import LogicCoverage.Proofs.Roles

/-!
# Chains of a forest

Two gates of one family are joined when one is a child of the other, and a chain is a class of gates
that hang together by such joints. Every chain has one top, which is its only root; all other
members are interior to it. Where no gate of a chain lacks an input, the operands found below its
root are exactly the nodes that feed one of its members, from left to right, and there is one more
of them than there are members.
-/

namespace LogicCoverage

open Relation

/-- Every gate is of its own family. -/
theorem Operator.sameFamily_self {op : Operator} (h : op.category.isGate = true) :
    op.sameFamily op = true := by
  simp [sameFamily, h]

/-- Only gates have families, and those of one family are of one category. -/
theorem Operator.isGate_of_sameFamily {a b : Operator} (h : a.sameFamily b = true) :
    a.category.isGate = true ∧ b.category.isGate = true ∧ a.category = b.category := by
  simp only [sameFamily, Bool.and_eq_true, decide_eq_true_eq] at h
  exact ⟨h.1, h.2 ▸ h.1, h.2⟩

/-- The gates of a tree that belong to a chain whose next gate above has the given operator,
children first. -/
def Tree.family (op : Operator) : Tree → List ExprId
  | .empty => []
  | .broken _ => []
  | .node id expr left right =>
    if op.sameFamily expr.op then (left ()).family expr.op ++ (right ()).family expr.op ++ [id]
    else []

namespace Database

/-- Parent and child are gates of one family. -/
def Joined (db : Database) (child parent : ExprId) : Prop :=
  ∃ ec ep, db.expr? child = some ec ∧ ec.parent = .expr parent ∧ db.expr? parent = some ep ∧
    ep.op.sameFamily ec.op = true

/-- Two gates hang together by joints. -/
def Chained (db : Database) : ExprId → ExprId → Prop := EqvGen db.Joined

/-- No gate above is of the same family. -/
def IsTop (db : Database) (id : ExprId) : Prop := ∀ p, ¬ db.Joined id p

/-- The gate is joined to some other. -/
def InChain (db : Database) (id : ExprId) : Prop := (∃ p, db.Joined id p) ∨ ∃ c, db.Joined c id

/-- The gates of the chain below its root, children first. -/
def members (db : Database) (root : ExprId) : List ExprId :=
  match db.expr? root with
  | some e => (db.tree root).family e.op
  | none => []

/-- One node is in the left and the other in the right branch of some node. -/
def LeftOf (db : Database) (x y : ExprId) : Prop :=
  ∃ id e l r, db.expr? id = some e ∧ e.left = some l ∧ e.right = some r ∧ x ∈ db.nodes l ∧
    y ∈ db.nodes r

/-- Every gate of the tree below a node has both inputs. -/
def Wired (db : Database) (id : ExprId) : Prop :=
  ∀ x ∈ db.nodes id, ∀ e, db.expr? x = some e → e.category.isGate = true →
    e.left ≠ none ∧ e.right ≠ none

/-- Every gate of the chain below a node has both inputs. -/
def WiredChain (db : Database) (root : ExprId) : Prop :=
  ∀ m, ReflTransGen db.Joined m root → ∀ e, db.expr? m = some e → e.left ≠ none ∧ e.right ≠ none

variable {db : Database} {cfg : ScoringConfig} {id x y r r' : ExprId} {e : Expression}

/-! ## Joints -/

/-- Joined nodes are linked. -/
theorem Joined.under (h : db.Joined x y) : db.Under x y := by
  obtain ⟨ex, ey, hex, hp, -⟩ := h
  exact ⟨ex, hex, hp⟩

/-- A node is joined to its parent if to any. -/
theorem Joined.right_unique : Relator.RightUnique db.Joined :=
  fun _ _ _ h h' => Under.right_unique h.under h'.under

/-- What is joined step by step is linked step by step. -/
theorem under_of_joined (h : ReflTransGen db.Joined x y) : ReflTransGen db.Under x y :=
  ReflTransGen.mono (fun _ _ => Joined.under) x y h

theorem Joined.isGate_child (h : db.Joined x y) (hx : db.expr? x = some e) :
    e.category.isGate = true := by
  obtain ⟨ex, ey, hex, -, -, hfam⟩ := h
  cases hx.symm.trans hex
  exact (Operator.isGate_of_sameFamily hfam).2.1

theorem Joined.isGate_parent (h : db.Joined x y) (hy : db.expr? y = some e) :
    e.category.isGate = true := by
  obtain ⟨ex, ey, -, -, hey, hfam⟩ := h
  cases hy.symm.trans hey
  exact (Operator.isGate_of_sameFamily hfam).1

/-- Joined gates are of one category. -/
theorem Joined.category_eq (h : db.Joined x y) {ex ey : Expression} (hx : db.expr? x = some ex)
    (hy : db.expr? y = some ey) : ex.category = ey.category := by
  obtain ⟨ex', ey', hex, -, hey, hfam⟩ := h
  cases hx.symm.trans hex
  cases hy.symm.trans hey
  exact (Operator.isGate_of_sameFamily hfam).2.2.symm

/-- The gates of a chain are of one category. -/
theorem category_eq_of_joined (h : ReflTransGen db.Joined x y) {ex ey : Expression}
    (hx : db.expr? x = some ex) (hy : db.expr? y = some ey) : ex.category = ey.category := by
  induction h using ReflTransGen.head_induction_on generalizing ex with
  | refl =>
    cases hx.symm.trans hy
    rfl
  | head hstep _ ih =>
    obtain ⟨ec, ep, hec, hp, hep, hfam⟩ := hstep
    exact (Joined.category_eq ⟨ec, ep, hec, hp, hep, hfam⟩ hx hep).trans (ih hep)

/-- The gates below a gate of a wired chain are wired as well. -/
theorem WiredChain.of_joined (h : db.WiredChain y) (hjoin : db.Joined x y) : db.WiredChain x :=
  fun m hm => h m (hm.tail hjoin)

/-- Chains consist of gates. -/
theorem InChain.isGate (h : db.InChain id) (hid : db.expr? id = some e) :
    e.category.isGate = true := by
  rcases h with ⟨p, hp⟩ | ⟨c, hc⟩
  · exact hp.isGate_child hid
  · exact hc.isGate_parent hid

/-! ## Tops -/

/-- Two gates, one of them above the other along joints, are in one chain. -/
theorem Chained.of_joined (h : ReflTransGen db.Joined x y) : db.Chained x y := by
  induction h with
  | refl => exact .refl x
  | tail _ hstep ih => exact .trans _ _ _ ih (.rel _ _ hstep)

/-- A chain of joints from a top goes nowhere. -/
theorem IsTop.eq_of_joined (hr : db.IsTop r) (h : ReflTransGen db.Joined r x) : x = r := by
  rcases ReflTransGen.cases_head h with rfl | ⟨p, hp, -⟩
  · rfl
  · exact (hr p hp).elim

/-- A gate has one top above it. -/
theorem IsTop.unique (hr : db.IsTop r) (hr' : db.IsTop r') (h : ReflTransGen db.Joined x r)
    (h' : ReflTransGen db.Joined x r') : r = r' := by
  rcases ReflTransGen.total_of_right_unique Joined.right_unique h h' with htop | htop
  · exact (hr.eq_of_joined htop).symm
  · exact hr'.eq_of_joined htop

/-- Gates that hang together have the same top. -/
theorem Chained.joined_iff (h : db.Chained x y) (hr : db.IsTop r) :
    ReflTransGen db.Joined x r ↔ ReflTransGen db.Joined y r := by
  induction h with
  | rel x y hstep =>
    constructor
    · intro hx
      rcases ReflTransGen.cases_head hx with rfl | ⟨p, hp, hrest⟩
      · exact (hr y hstep).elim
      · rwa [Joined.right_unique hp hstep] at hrest
    · exact fun hy => hy.head hstep
  | refl x => exact Iff.rfl
  | symm x y _ ih => exact ih.symm
  | trans x y z _ _ ih ih' => exact ih.trans ih'

/-- The chain of a top consists of the gates that joints lead from up to it. -/
theorem IsTop.chained_iff (hr : db.IsTop r) : db.Chained x r ↔ ReflTransGen db.Joined x r :=
  ⟨fun h => (h.joined_iff hr).mpr .refl, Chained.of_joined⟩

/-! ## Roles -/

namespace Forest

variable (hf : db.Forest)

include hf

/-- Joints of a node and its parent, as seen from the parent. -/
theorem joined_iff (h : db.expr? id = some e) {c : ExprId} :
    db.Joined c id ↔
      c ∈ e.children ∧ ∃ ec, db.expr? c = some ec ∧ e.op.sameFamily ec.op = true := by
  constructor
  · rintro ⟨ec, ep, hec, hp, hep, hfam⟩
    cases h.symm.trans hep
    exact ⟨(hf.mem_children_iff h).mpr ⟨ec, hec, hp⟩, ec, hec, hfam⟩
  · rintro ⟨hc, ec, hec, hfam⟩
    obtain ⟨ec', hec', hp⟩ := hf.child h hc
    cases hec.symm.trans hec'
    exact ⟨ec, e, hec, hp, h, hfam⟩

/-- Going up along joints ends at a top. -/
theorem exists_top (h : db.expr? id = some e) :
    ∃ r, ReflTransGen db.Joined id r ∧ db.IsTop r := by
  refine hf.induction_up (P := fun id => ∃ r, ReflTransGen db.Joined id r ∧ db.IsTop r) ?_ h
  intro id e he ih
  by_cases hjoin : ∃ p, db.Joined id p
  · obtain ⟨p, hp⟩ := hjoin
    obtain ⟨e', he', hparent⟩ := hp.under
    cases he.symm.trans he'
    obtain ⟨r, hr, htop⟩ := ih p hparent
    exact ⟨r, hr.head hp, htop⟩
  · exact ⟨id, .refl, fun p hp => hjoin ⟨p, hp⟩⟩

/-- A node shares its family with its parent just if it is joined to it. -/
theorem parentShares_iff (h : db.expr? id = some e) {shares : Bool}
    (hshares : db.parentShares e = .ok shares) : shares = true ↔ ∃ p, db.Joined id p := by
  rw [parentShares] at hshares
  cases hp : e.parentExpr? with
  | none =>
    rw [hp] at hshares
    cases hshares
    refine iff_of_false Bool.false_ne_true ?_
    rintro ⟨p, e', -, he', hparent, -⟩
    cases h.symm.trans he'
    rw [Expression.parentExpr?, hparent] at hp
    cases hp
  | some parent =>
    have hlink := parent_of_parentExpr? hp
    obtain ⟨ep, hep, -⟩ := hf.parent h hlink
    rw [hp] at hshares
    simp only [db.expr_eq_ok_iff.mpr hep, bind, Except.bind, pure, Except.pure,
      Except.ok.injEq] at hshares
    subst hshares
    constructor
    · exact fun hfam => ⟨parent, e, ep, h, hlink, hep, hfam⟩
    · rintro ⟨p, e', ep', he', hparent, hep', hfam⟩
      cases h.symm.trans he'
      cases hlink.symm.trans hparent
      cases hep.symm.trans hep'
      exact hfam

/-- A node shares its family with a child just if the child is joined to it. -/
theorem childShares_iff (h : db.expr? id = some e) {o : Option ExprId}
    (ho : ∀ c, o = some c → c ∈ e.children) {shares : Bool}
    (hshares : db.childShares e o = .ok shares) :
    shares = true ↔ ∃ c, o = some c ∧ db.Joined c id := by
  cases o with
  | none =>
    cases hshares
    exact iff_of_false Bool.false_ne_true (by simp)
  | some c =>
    obtain ⟨ec, hec, -⟩ := hf.child h (ho c rfl)
    simp only [childShares, db.expr_eq_ok_iff.mpr hec, bind, Except.bind, pure, Except.pure,
      Except.ok.injEq] at hshares
    subst hshares
    simp only [Option.some.injEq, exists_eq_left', hf.joined_iff h, ho c rfl, true_and, hec,
      Operator.sameFamily_comm ec.op]

/-- A node shares its family with some child just if some node is joined to it. -/
theorem someChildShares_iff (h : db.expr? id = some e) {shares : Bool}
    (hshares : db.someChildShares e = .ok shares) : shares = true ↔ ∃ c, db.Joined c id := by
  have hsides : (∃ c, db.Joined c id) ↔
      (∃ c, e.left = some c ∧ db.Joined c id) ∨ ∃ c, e.right = some c ∧ db.Joined c id := by
    rw [← exists_or]
    refine exists_congr fun c => ?_
    rw [← or_and_right, ← Expression.mem_children]
    exact ⟨fun hc => ⟨((hf.joined_iff h).mp hc).1, hc⟩, And.right⟩
  obtain ⟨left, hleft, hshares⟩ := bind_eq_ok_iff.mp hshares
  have hl := hf.childShares_iff h (fun c hc => Expression.mem_children.mpr (.inl hc)) hleft
  rw [hsides, ← hl]
  cases left with
  | true =>
    cases hshares
    exact iff_of_true rfl (.inl rfl)
  | false =>
    rw [hf.childShares_iff h (fun c hc => Expression.mem_children.mpr (.inr hc)) hshares]
    simp

/-- What the code takes to be in a chain is joined to something. -/
theorem inChain_iff (h : db.expr? id = some e) {chained : Bool}
    (hchained : db.inChain e = .ok chained) : chained = true ↔ db.InChain id := by
  obtain ⟨up, hup⟩ := hf.exists_parentShares h
  obtain ⟨down, hdown⟩ := hf.exists_someChildShares h
  rw [inChain, hup, hdown] at hchained
  cases hgate : e.category.isGate with
  | false =>
    rw [hgate] at hchained
    cases hchained
    refine iff_of_false Bool.false_ne_true fun hin => ?_
    rw [hin.isGate h] at hgate
    cases hgate
  | true =>
    rw [hgate, if_pos rfl] at hchained
    rw [InChain, ← hf.parentShares_iff h hup, ← hf.someChildShares_iff h hdown]
    cases up with
    | true =>
      cases hchained
      simp
    | false =>
      cases hchained
      simp

/-- The nodes that feed a chain: the parent is in one, and the node is not joined to it. -/
theorem isChainBoundary_iff (hchains : cfg.chains = true) (h : db.expr? id = some e) :
    db.isChainBoundary id cfg = .ok true ↔
      ∃ p, db.Under id p ∧ db.InChain p ∧ ¬ db.Joined id p := by
  rw [isChainBoundary, if_pos hchains, db.expr_eq_ok_iff.mpr h]
  simp only [bind, Except.bind]
  cases hp : e.parentExpr? with
  | none =>
    refine iff_of_false (by simp) ?_
    rintro ⟨p, ⟨e', he', hparent⟩, -⟩
    cases h.symm.trans he'
    rw [Expression.parentExpr?, hparent] at hp
    cases hp
  | some parent =>
    have hlink := parent_of_parentExpr? hp
    obtain ⟨ep, hep, hmem⟩ := hf.parent h hlink
    obtain ⟨chained, hchained⟩ := hf.exists_inChain hep
    have hin := hf.inChain_iff hep hchained
    have hjoin : db.Joined id parent ↔ ep.op.sameFamily e.op = true := by
      rw [hf.joined_iff hep]
      simp [hmem, h]
    simp only [db.expr_eq_ok_iff.mpr hep, hchained, pure, Except.pure, Except.ok.injEq,
      Bool.and_eq_true, Bool.not_eq_true', ← Bool.not_eq_true, hin, ← hjoin]
    constructor
    · exact fun hand => ⟨parent, ⟨e, h, hlink⟩, hand⟩
    · rintro ⟨p, hunder, hand⟩
      cases Under.right_unique hunder ⟨e, h, hlink⟩
      exact hand

/-- What the neighbours' families say about the role of a node. -/
theorem chainRole_eq (hchains : cfg.chains = true) (h : db.expr? id = some e) {up down : Bool}
    (hup : db.parentShares e = .ok up) (hdown : db.someChildShares e = .ok down) :
    db.chainRole id cfg =
      if up then .ok (some .interior)
      else if down then .ok (some .root)
      else do return if ← db.isChainBoundary id cfg then some .boundary else none := by
  rw [chainRole, if_pos hchains, db.expr_eq_ok_iff.mpr h]
  simp only [bind, Except.bind, hup, hdown, gateRole]
  cases hgate : e.category.isGate with
  | false =>
    have hupfalse : up = false := by
      refine Bool.eq_false_iff.mpr fun htrue => ?_
      obtain ⟨p, hp⟩ := (hf.parentShares_iff h hup).mp htrue
      cases (hp.isGate_child h).symm.trans hgate
    have hdownfalse : down = false := by
      refine Bool.eq_false_iff.mpr fun htrue => ?_
      obtain ⟨c, hc⟩ := (hf.someChildShares_iff h hdown).mp htrue
      cases (hc.isGate_parent h).symm.trans hgate
    subst hupfalse hdownfalse
    rfl
  | true => cases up <;> cases down <;> rfl

/-- With chains, the interiors are the gates that are joined to a parent. -/
theorem chainRole_eq_interior_iff (hchains : cfg.chains = true) (h : db.expr? id = some e) :
    db.chainRole id cfg = .ok (some .interior) ↔ ∃ p, db.Joined id p := by
  obtain ⟨up, hup⟩ := hf.exists_parentShares h
  obtain ⟨down, hdown⟩ := hf.exists_someChildShares h
  obtain ⟨boundary, hboundary⟩ := hf.exists_isChainBoundary h cfg
  rw [hf.chainRole_eq hchains h hup hdown, ← hf.parentShares_iff h hup, hboundary]
  cases up <;> cases down <;> cases boundary <;> simp [bind, Except.bind, pure, Except.pure]

/-- With chains, the roots are the tops that something is joined to. -/
theorem chainRole_eq_root_iff (hchains : cfg.chains = true) (h : db.expr? id = some e) :
    db.chainRole id cfg = .ok (some .root) ↔ (∃ c, db.Joined c id) ∧ db.IsTop id := by
  obtain ⟨up, hup⟩ := hf.exists_parentShares h
  obtain ⟨down, hdown⟩ := hf.exists_someChildShares h
  obtain ⟨boundary, hboundary⟩ := hf.exists_isChainBoundary h cfg
  have htop : db.IsTop id ↔ ¬ up = true := by
    rw [hf.parentShares_iff h hup, not_exists]
    rfl
  rw [hf.chainRole_eq hchains h hup hdown, ← hf.someChildShares_iff h hdown, htop, hboundary]
  cases up <;> cases down <;> cases boundary <;> simp [bind, Except.bind, pure, Except.pure]

omit hf in
theorem expr?_of_chainRole (hchains : cfg.chains = true) {role : Option ChainRole}
    (hrole : db.chainRole id cfg = .ok role) : ∃ e, db.expr? id = some e := by
  rw [chainRole, if_pos hchains] at hrole
  obtain ⟨e, he, -⟩ := bind_eq_ok_iff.mp hrole
  exact ⟨e, db.expr_eq_ok_iff.mp he⟩

/-- A chain root is a top. -/
theorem isTop_of_chainRole (hchains : cfg.chains = true)
    (hrole : db.chainRole r cfg = .ok (some .root)) : db.IsTop r := by
  obtain ⟨e, he⟩ := expr?_of_chainRole hchains hrole
  exact ((hf.chainRole_eq_root_iff hchains he).mp hrole).2

/-- A gate that is joined to another has a root above it. -/
theorem exists_root (hchains : cfg.chains = true) (hx : db.InChain x) :
    ∃ r, ReflTransGen db.Joined x r ∧ db.chainRole r cfg = .ok (some .root) := by
  obtain ⟨e, he⟩ : ∃ e, db.expr? x = some e := by
    rcases hx with ⟨p, e, -, he, -⟩ | ⟨c, -, e, -, -, he, -⟩
    · exact ⟨e, he⟩
    · exact ⟨e, he⟩
  obtain ⟨r, hup, htop⟩ := hf.exists_top he
  have hchild : ∃ c, db.Joined c r := by
    rcases ReflTransGen.cases_tail hup with rfl | ⟨c, -, hc⟩
    · exact hx.resolve_left fun ⟨p, hp⟩ => htop p hp
    · exact ⟨c, hc⟩
  obtain ⟨er, her⟩ : ∃ er, db.expr? r = some er := by
    obtain ⟨c, ec, er, -, -, her, -⟩ := hchild
    exact ⟨er, her⟩
  exact ⟨r, hup, (hf.chainRole_eq_root_iff hchains her).mpr ⟨hchild, htop⟩⟩

/-- The gates below a root are interior to its chain. -/
theorem chainRole_eq_interior (hchains : cfg.chains = true) (h : ReflTransGen db.Joined x r)
    (hne : x ≠ r) : db.chainRole x cfg = .ok (some .interior) := by
  rcases ReflTransGen.cases_head h with heq | ⟨p, hp, -⟩
  · exact (hne heq).elim
  · obtain ⟨ex, hex, -⟩ := hp.under
    exact (hf.chainRole_eq_interior_iff hchains hex).mpr ⟨p, hp⟩

/-- What reaches a chain root along joints is in a chain. -/
theorem inChain_of_joined (hchains : cfg.chains = true)
    (hrole : db.chainRole r cfg = .ok (some .root)) (h : ReflTransGen db.Joined x r) :
    db.InChain x := by
  rcases ReflTransGen.cases_head h with rfl | ⟨p, hp, -⟩
  · obtain ⟨e, he⟩ := expr?_of_chainRole hchains hrole
    exact .inr ((hf.chainRole_eq_root_iff hchains he).mp hrole).1
  · exact .inl ⟨p, hp⟩

/-! ## Members -/

/-- A tree of another family has no members of this one; one of the same family has those of its
root. -/
theorem family_tree (h : db.expr? id = some e) (op : Operator) :
    (db.tree id).family op = if op.sameFamily e.op then db.members id else [] := by
  rw [hf.tree_eq h, Tree.family]
  split
  · rename_i hfam
    rw [members, h]
    dsimp only
    rw [hf.tree_eq h, Tree.family,
      if_pos (Operator.sameFamily_self (Operator.isGate_of_sameFamily hfam).2.1)]
  · rfl

/-- The members of a chain below a gate: those on its left, those on its right, and the gate. -/
theorem members_eq (h : db.expr? id = some e) (hgate : e.category.isGate = true) :
    db.members id = (db.branch e.left).family e.op ++ (db.branch e.right).family e.op ++ [id] := by
  rw [members, h]
  dsimp only
  rw [hf.tree_eq h, Tree.family, if_pos (Operator.sameFamily_self hgate)]

/-- The members on one side are those below a child that is joined. -/
theorem mem_family_branch (h : db.expr? id = some e) {o : Option ExprId}
    (ho : ∀ c, o = some c → c ∈ e.children) :
    x ∈ (db.branch o).family e.op ↔ ∃ c, o = some c ∧ db.Joined c id ∧ x ∈ db.members c := by
  cases o with
  | none => exact iff_of_false List.not_mem_nil (by simp)
  | some c =>
    obtain ⟨ec, hec, -⟩ := hf.child h (ho c rfl)
    rw [branch, hf.family_tree hec]
    simp only [Option.some.injEq, exists_eq_left', hf.joined_iff h, ho c rfl, true_and, hec]
    split <;> simp_all

/-- The members of a chain are the gates from which joints lead up to its root. -/
theorem mem_members_iff (h : db.expr? id = some e) (hgate : e.category.isGate = true) :
    x ∈ db.members id ↔ ReflTransGen db.Joined x id := by
  refine hf.induction_down (P := fun id => ∀ e, db.expr? id = some e → e.category.isGate = true →
    (x ∈ db.members id ↔ ReflTransGen db.Joined x id)) ?_ h e h hgate
  intro id e he ih e' he' hgate
  cases he.symm.trans he'
  rw [hf.members_eq he hgate, List.append_assoc, List.mem_append, List.mem_append,
    List.mem_singleton, hf.mem_family_branch he fun c hc => Expression.mem_children.mpr (.inl hc),
    hf.mem_family_branch he fun c hc => Expression.mem_children.mpr (.inr hc),
    ReflTransGen.cases_tail_iff]
  have below {c : ExprId} (hc : db.Joined c id) :
      x ∈ db.members c ↔ ReflTransGen db.Joined x c := by
    obtain ⟨hmem, ec, hec, -⟩ := (hf.joined_iff he).mp hc
    exact ih c hmem ec hec (hc.isGate_child hec)
  constructor
  · rintro (⟨c, -, hc, hx⟩ | ⟨c, -, hc, hx⟩ | rfl)
    · exact .inr ⟨c, (below hc).mp hx, hc⟩
    · exact .inr ⟨c, (below hc).mp hx, hc⟩
    · exact .inl rfl
  · rintro (rfl | ⟨c, hx, hc⟩)
    · exact .inr (.inr rfl)
    · rcases Expression.mem_children.mp ((hf.joined_iff he).mp hc).1 with hleft | hright
      · exact .inl ⟨c, hleft, hc, (below hc).mpr hx⟩
      · exact .inr (.inl ⟨c, hright, hc, (below hc).mpr hx⟩)

/-- Members are listed in the order of the walk. -/
theorem members_sublist (h : db.expr? id = some e) : (db.members id).Sublist (db.nodes id) := by
  refine hf.induction_down (P := fun id => (db.members id).Sublist (db.nodes id)) ?_ h
  intro id e he ih
  have side {o : Option ExprId} (ho : ∀ c, o = some c → c ∈ e.children) :
      ((db.branch o).family e.op).Sublist (db.branchNodes o) := by
    cases o with
    | none => exact .slnil
    | some c =>
      obtain ⟨ec, hec, -⟩ := hf.child he (ho c rfl)
      rw [branch, hf.family_tree hec]
      split
      · exact ih c (ho c rfl)
      · exact List.nil_sublist _
  by_cases hgate : e.category.isGate = true
  · rw [hf.members_eq he hgate, hf.nodes_eq he]
    exact ((side fun c hc => Expression.mem_children.mpr (.inl hc)).append
      (side fun c hc => Expression.mem_children.mpr (.inr hc))).append (List.Sublist.refl [id])
  · rw [members, he]
    dsimp only
    rw [hf.tree_eq he, Tree.family, if_neg fun hfam => hgate (Operator.isGate_of_sameFamily hfam).1]
    exact List.nil_sublist _

theorem nodup_members (h : db.expr? id = some e) : (db.members id).Nodup :=
  (hf.nodup_nodes h).sublist (hf.members_sublist h)

/-! ## Operands -/

/-- A node of the same family has operands; any other is one. -/
theorem operandsUnder_tree (h : db.expr? id = some e) (op : Operator) :
    (db.tree id).operandsUnder op =
      if e.op.sameFamily op then db.chainOperands id else .ok [id] := by
  rw [chainOperands, hf.tree_eq h]
  rfl

/-- No node is left of itself. -/
theorem ne_of_leftOf (h : db.LeftOf x y) : x ≠ y := by
  rintro rfl
  obtain ⟨id, e, l, r, he, hl, hr, hx, hx'⟩ := h
  refine hf.disjoint_nodes_children he (Expression.mem_children.mpr (.inl hl))
    (Expression.mem_children.mpr (.inr hr)) ?_ hx hx'
  rintro rfl
  rcases hf.distinct he with hnone | hne
  · cases hl.symm.trans hnone
  · exact hne (hl.trans hr.symm)

/-- All gates below a wired node are wired. -/
theorem wired_of_mem_nodes (h : db.expr? id = some e) (hw : db.Wired id) (hy : y ∈ db.nodes id) :
    db.Wired y :=
  fun x hx => hw x (hf.nodes_trans h hy hx)

/-- A chain in a wired tree is wired. -/
theorem wiredChain_of_wired (h : db.expr? id = some e) (hgate : e.category.isGate = true)
    (hw : db.Wired id) : db.WiredChain id := by
  intro m hm em hem
  refine hw m ((hf.mem_nodes_iff h).mpr (under_of_joined hm)) em hem ?_
  rw [category_eq_of_joined hm hem h, hgate]

/-- Where the operands of a chain are found, none of its gates lacks an input. -/
theorem wiredChain_of_chainOperands (h : db.expr? id = some e) {operands : List ExprId}
    (hops : db.chainOperands id = .ok operands) : db.WiredChain id := by
  refine hf.induction_down (P := fun id => ∀ operands, db.chainOperands id = .ok operands →
    db.WiredChain id) ?_ h operands hops
  intro id e he ih operands hops m hm em hem
  rw [chainOperands, hf.tree_eq he, Tree.operands] at hops
  obtain ⟨⟨left, right⟩, hpair, hops⟩ := bind_eq_ok_iff.mp hops
  obtain ⟨ls, hls, hops⟩ := bind_eq_ok_iff.mp hops
  obtain ⟨rs, hrs, -⟩ := bind_eq_ok_iff.mp hops
  obtain ⟨hleft, hright⟩ := Expression.pair_eq_ok_iff.mp hpair
  rcases (ReflTransGen.cases_tail_iff _ _ _).mp hm with rfl | ⟨c, hmc, hc⟩
  · cases he.symm.trans hem
    simp [hleft, hright]
  · -- The operands in the branch of a joined child are those of the chain that goes on there.
    obtain ⟨hchild, ec, hec, hfam⟩ := (hf.joined_iff he).mp hc
    have hbranch : ∃ found, (db.tree c).operandsUnder e.op = .ok found := by
      rcases Expression.mem_children.mp hchild with hcl | hcr
      · exact ⟨ls, by rwa [hcl] at hls⟩
      · exact ⟨rs, by rwa [hcr] at hrs⟩
    obtain ⟨found, hfound⟩ := hbranch
    rw [hf.operandsUnder_tree hec, Operator.sameFamily_comm, if_pos hfam] at hfound
    exact ih c hchild found hfound m hmc em hem

end Forest

/-- What the operands of a chain are: one more than its members, from left to right, and exactly the
nodes that feed one of them. -/
structure Feeds (db : Database) (root : ExprId) (operands : List ExprId) : Prop where
  length : operands.length = (db.members root).length + 1
  ordered : operands.Pairwise db.LeftOf
  mem_iff (b : ExprId) : b ∈ operands ↔
    ∃ p, ReflTransGen db.Joined p root ∧ db.Under b p ∧ ¬ db.Joined b p

namespace Forest

variable (hf : db.Forest)

include hf

/-- The operands in the branch of one child: the child itself, or those of the chain that goes on
there. -/
theorem exists_branchOperands (h : db.expr? id = some e) {c : ExprId} (hc : c ∈ e.children)
    (hchain : db.Joined c id → ∃ operands, db.chainOperands c = .ok operands ∧
      db.Feeds c operands) :
    ∃ operands, (db.tree c).operandsUnder e.op = .ok operands ∧
      operands.length = ((db.tree c).family e.op).length + 1 ∧ operands.Pairwise db.LeftOf ∧
      (∀ b ∈ operands, b ∈ db.nodes c) ∧
      ∀ b, b ∈ operands ↔ (¬ db.Joined c id ∧ b = c) ∨
        db.Joined c id ∧ ∃ p, ReflTransGen db.Joined p c ∧ db.Under b p ∧ ¬ db.Joined b p := by
  obtain ⟨ec, hec, -⟩ := hf.child h hc
  have hjoin : db.Joined c id ↔ e.op.sameFamily ec.op = true := by
    rw [hf.joined_iff h]
    simp [hc, hec]
  by_cases hfam : db.Joined c id
  · obtain ⟨operands, hoperands, hfeeds⟩ := hchain hfam
    have hunder : (db.tree c).operandsUnder e.op = .ok operands := by
      rw [hf.operandsUnder_tree hec, if_pos, hoperands]
      rw [Operator.sameFamily_comm]
      exact hjoin.mp hfam
    refine ⟨operands, hunder, ?_, hfeeds.ordered, hf.mem_nodes_of_operandsUnder hec hunder,
      fun b => ?_⟩
    · rw [hf.family_tree hec, if_pos (hjoin.mp hfam), hfeeds.length]
    · rw [hfeeds.mem_iff]
      simp [hfam]
  · have hunder : (db.tree c).operandsUnder e.op = .ok [c] := by
      rw [hf.operandsUnder_tree hec, if_neg]
      rw [Operator.sameFamily_comm]
      exact fun hsame => hfam (hjoin.mpr hsame)
    refine ⟨[c], hunder, ?_, List.pairwise_singleton _ _, hf.mem_nodes_of_operandsUnder hec hunder,
      fun b => ?_⟩
    · rw [hf.family_tree hec, if_neg fun hsame => hfam (hjoin.mpr hsame)]
      rfl
    · simp [hfam]

/-- A gate of a wired chain has the operands of the chain below it. -/
theorem exists_operands (h : db.expr? id = some e) (hgate : e.category.isGate = true)
    (hw : db.WiredChain id) :
    ∃ operands, db.chainOperands id = .ok operands ∧ db.Feeds id operands := by
  refine hf.induction_down (P := fun id => ∀ e, db.expr? id = some e → e.category.isGate = true →
    db.WiredChain id → ∃ operands, db.chainOperands id = .ok operands ∧ db.Feeds id operands) ?_
    h e h hgate hw
  intro id e he ih e' he' hgate hw
  cases he.symm.trans he'
  obtain ⟨left, right, hleft, hright, hpair⟩ := Expression.exists_pair id (hw id .refl e he)
  have hmemleft : left ∈ e.children := Expression.mem_children.mpr (.inl hleft)
  have hmemright : right ∈ e.children := Expression.mem_children.mpr (.inr hright)
  have below {c : ExprId} (hc : c ∈ e.children) := hf.exists_branchOperands he hc fun hjoin => by
    obtain ⟨-, ec, hec, -⟩ := (hf.joined_iff he).mp hjoin
    exact ih c hc ec hec (hjoin.isGate_child hec) (hw.of_joined hjoin)
  obtain ⟨ls, hls, hlenl, hordl, hnodesl, hmeml⟩ := below hmemleft
  obtain ⟨rs, hrs, hlenr, hordr, hnodesr, hmemr⟩ := below hmemright
  refine ⟨ls ++ rs, ?_, ?_, ?_, fun b => ?_⟩
  · rw [chainOperands, hf.tree_eq he, Tree.operands, hpair, hleft, hright]
    simp only [branch, hls, hrs, bind, Except.bind, pure, Except.pure]
  · rw [hf.members_eq he hgate, hleft, hright]
    simp only [branch, List.length_append, List.length_singleton]
    omega
  · refine List.pairwise_append.mpr ⟨hordl, hordr, fun x hx y hy => ?_⟩
    exact ⟨id, e, left, right, he, hleft, hright, hnodesl x hx, hnodesr y hy⟩
  · -- A feeding node hangs below the gate itself or below a gate joined to it.
    have hsplit : (∃ p, ReflTransGen db.Joined p id ∧ db.Under b p ∧ ¬ db.Joined b p) ↔
        ∃ c ∈ e.children, (¬ db.Joined c id ∧ b = c) ∨
          db.Joined c id ∧ ∃ p, ReflTransGen db.Joined p c ∧ db.Under b p ∧ ¬ db.Joined b p := by
      constructor
      · rintro ⟨p, hp, hunder, hnot⟩
        rcases ReflTransGen.cases_tail_iff _ _ _ |>.mp hp with rfl | ⟨c, hpc, hc⟩
        · exact ⟨b, (hf.mem_children_iff he).mpr hunder, .inl ⟨hnot, rfl⟩⟩
        · exact ⟨c, ((hf.joined_iff he).mp hc).1, .inr ⟨hc, p, hpc, hunder, hnot⟩⟩
      · rintro ⟨c, hc, ⟨hnot, rfl⟩ | ⟨hjoin, p, hpc, hunder, hnot⟩⟩
        · exact ⟨id, .refl, (hf.mem_children_iff he).mp hc, hnot⟩
        · exact ⟨p, hpc.tail hjoin, hunder, hnot⟩
    rw [hsplit, List.mem_append, hmeml, hmemr]
    constructor
    · rintro (hb | hb)
      · exact ⟨left, hmemleft, hb⟩
      · exact ⟨right, hmemright, hb⟩
    · rintro ⟨c, hc, hb⟩
      rcases Expression.mem_children.mp hc with hcl | hcr
      · cases hleft.symm.trans hcl
        exact .inl hb
      · cases hright.symm.trans hcr
        exact .inr hb

/-- The operands found below a gate are those of its chain. -/
theorem feeds_of_chainOperands (h : db.expr? id = some e) (hgate : e.category.isGate = true)
    {operands : List ExprId} (hops : db.chainOperands id = .ok operands) :
    db.Feeds id operands := by
  obtain ⟨operands', hops', hfeeds⟩ :=
    hf.exists_operands h hgate (hf.wiredChain_of_chainOperands h hops)
  cases hops.symm.trans hops'
  exact hfeeds

/-! ## Depths -/

/-- Levels are not counted along joints. -/
theorem depth_eq_of_joined (h : ReflTransGen db.Joined x y) : db.depth x = db.depth y := by
  induction h with
  | refl => rfl
  | tail _ hstep ih =>
    obtain ⟨ec, ep, hec, hp, hep, hfam⟩ := hstep
    have hlevel := hf.childLevel_depth hep hec hp
    rw [childLevel, if_pos hfam] at hlevel
    exact ih.trans (Except.ok.inj hlevel).symm

/-- A node that feeds a gate is one level below it. -/
theorem depth_of_feeds (hunder : db.Under x y) (hnot : ¬ db.Joined x y) :
    (db.depth x).toNat = (db.depth y).toNat + 1 := by
  obtain ⟨ex, hex, hp⟩ := hunder
  obtain ⟨ey, hey, -⟩ := hf.parent hex hp
  have hlevel := hf.childLevel_depth hey hex hp
  rw [childLevel, if_neg fun hfam => hnot ⟨ex, ey, hex, hp, hey, hfam⟩] at hlevel
  exact Counter.addOr_eq_ok_iff.mp hlevel

end Forest

end Database

end LogicCoverage
