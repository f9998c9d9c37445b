import LogicCoverage.Proofs.Bare
import LogicCoverage.Proofs.PointKeys

/-!
# Points and exclusions

Which points a node is scored on, and which of them the simulation showed, is settled by the bare
content of the database. Exclusions decide on nothing but the points that are excluded: those whose
site is muted. The sites of a node's points lie in the tree below the node.
-/

namespace LogicCoverage

open Relation

/-! ## Computations with changed results -/

section Change

variable {ε α β γ δ : Type}

/-- A sequence of two computations fails in the first or in the second. -/
theorem bind_eq_error_iff {x : Except ε α} {f : α → Except ε β} {e : ε} :
    x >>= f = .error e ↔ x = .error e ∨ ∃ a, x = .ok a ∧ f a = .error e := by
  cases x <;> simp [bind, Except.bind]

/-- What comes next may be mapped after the whole. -/
theorem bind_eq_map {x : Except ε α} {k : α → Except ε γ} {k' : α → Except ε δ} {h : γ → δ}
    (hk : ∀ a, k' a = (k a).map h) : x >>= k' = (x >>= k).map h := by
  cases x with
  | error _ => rfl
  | ok a => exact hk a

/-- Likewise where the start is mapped. -/
theorem bind_eq_map_of_eq_map {x : Except ε α} {x' : Except ε β} {f : α → β} {k : α → Except ε γ}
    {k' : β → Except ε δ} {h : γ → δ} (hx : x' = x.map f) (hk : ∀ a, k' (f a) = (k a).map h) :
    x' >>= k' = (x >>= k).map h := by
  subst hx
  cases x with
  | error _ => rfl
  | ok a => exact hk a

/-- A traversal of mapped steps is a mapped traversal. -/
theorem mapM_eq_map_mapM {l : List α} {f : α → Except ε γ} {g : α → Except ε β} {h : β → γ}
    (hl : ∀ a ∈ l, f a = (g a).map h) : l.mapM f = (l.mapM g).map (List.map h) := by
  induction l with
  | nil => rfl
  | cons a l ih =>
    rw [List.mapM_cons, List.mapM_cons]
    apply bind_eq_map_of_eq_map (hl a List.mem_cons_self)
    intro b
    exact bind_eq_map_of_eq_map (ih fun x hx => hl x (List.mem_cons_of_mem a hx)) fun _ => rfl

/-- A traversal whose steps all succeed gives the list of their results. -/
theorem mapM_eq_ok_map {l : List α} {f : α → Except ε β} {g : α → β}
    (hl : ∀ a ∈ l, f a = .ok (g a)) : l.mapM f = .ok (l.map g) := by
  induction l with
  | nil => rfl
  | cons a l ih =>
    rw [List.forall_mem_cons] at hl
    rw [List.mapM_cons, hl.1, ih hl.2]
    rfl

/-- What succeeds for each item succeeds for all of them, and the results are related one by one. -/
theorem exists_mapM_ok {f : α → Except ε β} {R : α → β → Prop} {l : List α}
    (h : ∀ a ∈ l, ∃ b, f a = .ok b ∧ R a b) : ∃ bs, l.mapM f = .ok bs ∧ List.Forall₂ R l bs := by
  induction l with
  | nil => exact ⟨[], rfl, .nil⟩
  | cons a l ih =>
    rw [List.forall_mem_cons] at h
    obtain ⟨⟨b, hb, hrb⟩, hrest⟩ := h
    obtain ⟨bs, hbs, hrbs⟩ := ih hrest
    refine ⟨b :: bs, ?_, .cons hrb hrbs⟩
    rw [List.mapM_cons, hb, hbs]
    rfl

/-- Of two lists that are related one by one, each item of the first is related to one of the second. -/
theorem exists_of_mem_forall₂ {R : α → β → Prop} {as : List α} {bs : List β}
    (h : List.Forall₂ R as bs) {a : α} (ha : a ∈ as) : ∃ b ∈ bs, R a b := by
  induction h with
  | nil => exact absurd ha List.not_mem_nil
  | @cons a' b as bs hfirst _ ih =>
    rcases List.mem_cons.mp ha with rfl | ha
    · exact ⟨b, List.mem_cons_self, hfirst⟩
    · obtain ⟨b', hb', hrelated⟩ := ih ha
      exact ⟨b', List.mem_cons_of_mem b hb', hrelated⟩

/-- What succeeds for all items succeeds for each of them. -/
theorem exists_of_mapM_ok {f : α → Except ε β} {l : List α} {r : List β} (h : l.mapM f = .ok r) :
    ∀ a ∈ l, ∃ b, f a = .ok b := by
  induction l generalizing r with
  | nil => nofun
  | cons a l ih =>
    rw [List.mapM_cons] at h
    obtain ⟨b, hb, h⟩ := bind_eq_ok_iff.mp h
    obtain ⟨bs, hbs, -⟩ := bind_eq_ok_iff.mp h
    exact List.forall_mem_cons.mpr ⟨⟨b, hb⟩, ih hbs⟩

end Change

/-- Excluded or not as its site is muted. -/
def Point.mute (muted : ExprId → Bool) (p : Point) : Point := { p with excluded := muted p.site }

/-- Evidence gives points first, which are muted afterwards. -/
theorem Evidence.points_eq_mute (ev : Evidence) (kind : PointKind) (site : ExprId)
    (muted : ExprId → Bool) (width : Option UInt32) :
    ev.points kind site (muted site) width =
      (ev.points kind site false width).map (List.map (Point.mute muted)) := by
  cases width with
  | none => rfl
  | some width =>
    simp only [Evidence.points, Checked.tabulate_eq_mapM]
    exact mapM_eq_map_mapM fun n _ => bind_eq_map fun _ => rfl

namespace Database

variable {db : Database}

/-! ## Nodes scored on their own -/

/-- Flags do not matter to the points of an input, but for muting them. -/
theorem inputPoints_eq_mute (site operand : ExprId) (kind : PointKind)
    {scalar : Expression → Bool} (hscalar : ∀ e, scalar e.bare = scalar e)
    (pick : BitHistory → BitMask) (muted : ExprId → Bool) (width : Option UInt32) :
    db.inputPoints site operand kind scalar pick (muted site) width =
      (db.bare.inputPoints site operand kind scalar pick false width).map
        (List.map (Point.mute muted)) := by
  simp only [inputPoints, expr_bare]
  cases db.expr operand with
  | error fault => rfl
  | ok e =>
    simp only [Except.map, bind, Except.bind, hscalar]
    exact Evidence.points_eq_mute _ kind site muted width

/-- Likewise for the points of a node that stands alone. -/
theorem singlePoints_eq_mute (id : ExprId) (cfg : ScoringConfig) (muted : ExprId → Bool) :
    db.singlePoints id cfg (muted id) =
      (db.bare.singlePoints id cfg false).map (List.map (Point.mute muted)) := by
  have own (e : Expression) (kind : PointKind) (scalar : Bool) (pick : BitHistory → BitMask)
      (width : Option UInt32) :
      (Evidence.own id e scalar pick).points kind id (muted id) width =
        ((Evidence.own id e.bare scalar pick).points kind id false width).map
          (List.map (Point.mute muted)) :=
    Evidence.points_eq_mute _ kind id muted width
  have join (a b : List Point) : a.map (Point.mute muted) ++ b.map (Point.mute muted) =
      (a ++ b).map (Point.mute muted) := List.map_append.symm
  simp only [singlePoints, expr_bare]
  cases db.expr id with
  | error fault => rfl
  | ok e =>
    simp only [Except.map, bind, Except.bind]
    have hbare : e.bare.category = e.category := rfl
    rw [hbare]
    cases e.category with
    | andGate =>
      refine bind_eq_map fun (left, right) => ?_
      apply bind_eq_map_of_eq_map (inputPoints_eq_mute id left _ (fun _ => rfl) _ muted _)
      intro l
      apply bind_eq_map_of_eq_map (inputPoints_eq_mute id right _ (fun _ => rfl) _ muted _)
      intro r
      apply bind_eq_map_of_eq_map (own e _ _ _ _)
      intro both
      simp only [join]
      rfl
    | orGate =>
      refine bind_eq_map fun (left, right) => ?_
      apply bind_eq_map_of_eq_map (inputPoints_eq_mute id left _ (fun _ => rfl) _ muted _)
      intro l
      apply bind_eq_map_of_eq_map (inputPoints_eq_mute id right _ (fun _ => rfl) _ muted _)
      intro r
      apply bind_eq_map_of_eq_map (own e _ _ _ _)
      intro both
      simp only [join]
      rfl
    | comparison =>
      apply bind_eq_map
      intro _
      apply bind_eq_map_of_eq_map (own e _ _ _ _)
      intro p00
      apply bind_eq_map_of_eq_map (own e _ _ _ _)
      intro p01
      apply bind_eq_map_of_eq_map (own e _ _ _ _)
      intro p10
      apply bind_eq_map_of_eq_map (own e _ _ _ _)
      intro p11
      simp only [join]
      rfl
    | event => exact own e _ _ _ _
    | value | constant | control =>
      apply bind_eq_map_of_eq_map (own e _ _ _ _)
      intro t
      apply bind_eq_map_of_eq_map (own e _ _ _ _)
      intro f
      simp only [join]
      rfl

/-! ## Chains -/

/-- The operands found in a tree lie in it. -/
theorem Forest.mem_nodes_of_operandsUnder (hf : db.Forest) {id : ExprId} {e : Expression}
    (h : db.expr? id = some e) {op : Operator} {found : List ExprId}
    (hfound : (db.tree id).operandsUnder op = .ok found) : ∀ o ∈ found, o ∈ db.nodes id := by
  refine hf.induction_down (P := fun id => ∀ {op found},
    (db.tree id).operandsUnder op = .ok found → ∀ o ∈ found, o ∈ db.nodes id) ?_ h hfound
  intro id e he ih op found hfound
  have side {op : Operator} {o : Option ExprId} {l : List ExprId}
      (ho : ∀ c, o = some c → c ∈ e.children) (hl : (db.branch o).operandsUnder op = .ok l) :
      ∀ x ∈ l, x ∈ db.nodes id := by
    cases o with
    | none =>
      cases hl
      exact fun _ hx => (List.not_mem_nil hx).elim
    | some c =>
      intro x hx
      exact (hf.mem_nodes_iff_children he).mpr (.inr ⟨c, ho c rfl, ih c (ho c rfl) hl x hx⟩)
  rw [hf.tree_eq he, Tree.operandsUnder] at hfound
  split at hfound
  · obtain ⟨_, -, hfound⟩ := bind_eq_ok_iff.mp hfound
    obtain ⟨l, hl, hfound⟩ := bind_eq_ok_iff.mp hfound
    obtain ⟨r, hr, hfound⟩ := bind_eq_ok_iff.mp hfound
    cases hfound
    intro o ho
    rcases List.mem_append.mp ho with ho | ho
    · exact side (fun c h => Expression.mem_children.mpr (.inl h)) hl o ho
    · exact side (fun c h => Expression.mem_children.mpr (.inr h)) hr o ho
  · cases hfound
    simp only [List.mem_singleton, forall_eq]
    exact hf.self_mem_nodes he

/-- The operands of a chain are under its root. -/
theorem Forest.under_of_chainOperands (hf : db.Forest) {root : ExprId} {e : Expression}
    (h : db.expr? root = some e) {operands : List ExprId}
    (hops : db.chainOperands root = .ok operands) : ∀ o ∈ operands, TransGen db.Under o root := by
  have side {op : Operator} {o : Option ExprId} {l : List ExprId}
      (ho : ∀ c, o = some c → c ∈ e.children) (hl : (db.branch o).operandsUnder op = .ok l) :
      ∀ x ∈ l, TransGen db.Under x root := by
    cases o with
    | none =>
      cases hl
      exact fun _ hx => (List.not_mem_nil hx).elim
    | some c =>
      obtain ⟨ec, hec, -⟩ := hf.child h (ho c rfl)
      intro x hx
      have hmem := hf.mem_nodes_of_operandsUnder hec hl x hx
      exact TransGen.tail' ((hf.mem_nodes_iff hec).mp hmem) ((hf.mem_children_iff h).mp (ho c rfl))
  rw [chainOperands, hf.tree_eq h, Tree.operands] at hops
  obtain ⟨_, -, hops⟩ := bind_eq_ok_iff.mp hops
  obtain ⟨l, hl, hops⟩ := bind_eq_ok_iff.mp hops
  obtain ⟨r, hr, hops⟩ := bind_eq_ok_iff.mp hops
  cases hops
  intro o ho
  rcases List.mem_append.mp ho with ho | ho
  · exact side (fun c h => Expression.mem_children.mpr (.inl h)) hl o ho
  · exact side (fun c h => Expression.mem_children.mpr (.inr h)) hr o ho

/-- What is excluded between an operand and a root that is not muted mutes the operand. -/
theorem Forest.excludedWithin_eq (hf : db.Forest) {root o : ExprId} (ho : TransGen db.Under o root)
    (hroot : db.muted root = false) : db.excludedWithin root o = .ok (db.muted o) := by
  have unfold_within {x : ExprId} {ex : Expression} (hex : db.expr? x = some ex) :
      db.excludedWithin root x = if ex.excluded then .ok true
        else ((db.lineage ex.parent).upTo root).any fun _ node => node.excluded := by
    rw [excludedWithin, db.expr_eq_ok_iff.mpr hex]
    rfl
  induction ho using TransGen.head_induction_on with
  | single hx =>
    obtain ⟨ex, hex, hp⟩ := hx
    obtain ⟨er, her, -⟩ := hf.parent hex hp
    rw [unfold_within hex, hf.muted_eq hex, hp, hf.lineage_expr her, Lineage.upTo, if_pos rfl,
      Lineage.any, mutedOwner, hroot]
    cases ex.excluded <;> rfl
  | @head x p hx hrest ih =>
    obtain ⟨ex, hex, hp⟩ := hx
    obtain ⟨ep, hep, -⟩ := hf.parent hex hp
    have hne : p ≠ root := fun heq => hf.acyclic root (heq ▸ hrest)
    rw [unfold_within hep] at ih
    rw [unfold_within hex, hf.muted_eq hex, hp, hf.lineage_expr hep, Lineage.upTo, if_neg hne,
      Lineage.any, ih, mutedOwner]
    cases ex.excluded <;> rfl

/-- Likewise for the points of an operand below the root of a chain. -/
theorem Forest.operandPoints_eq_mute (hf : db.Forest) {root o : ExprId}
    (ho : TransGen db.Under o root) (isAnd : Bool) (width : Option UInt32) :
    db.operandPoints root isAnd (db.muted root) width o =
      (db.bare.operandPoints root isAnd false width o).map (List.map (Point.mute db.muted)) := by
  obtain ⟨eo, heo⟩ : ∃ eo, db.expr? o = some eo := by
    obtain ⟨_, ⟨eo, heo, -⟩, -⟩ := TransGen.head'_iff.mp ho
    exact ⟨eo, heo⟩
  obtain ⟨er, her⟩ : ∃ er, db.expr? root = some er := by
    obtain ⟨x, -, ⟨ex, hex, hp⟩⟩ := TransGen.tail'_iff.mp ho
    obtain ⟨er, her, -⟩ := hf.parent hex hp
    exact ⟨er, her⟩
  have hbare : db.bare.excludedWithin root o = .ok false := by
    rw [hf.bare.excludedWithin_eq (db.under_bare ▸ ho) (hf.muted_bare her), hf.muted_bare heo]
  have points : (if isAnd
      then db.inputPoints o o .operandFalse (·.wasFalse) (·.wasFalse) (db.muted o) width
      else db.inputPoints o o .operandTrue (·.wasTrue) (·.wasTrue) (db.muted o) width) =
      (db.bare.operandPoints root isAnd false width o).map (List.map (Point.mute db.muted)) := by
    rw [operandPoints, if_neg Bool.false_ne_true, hbare]
    cases isAnd with
    | true => exact inputPoints_eq_mute o o .operandFalse (fun _ => rfl) _ db.muted width
    | false => exact inputPoints_eq_mute o o .operandTrue (fun _ => rfl) _ db.muted width
  rw [← points, operandPoints]
  cases hroot : db.muted root with
  | false =>
    rw [if_neg Bool.false_ne_true, hf.excludedWithin_eq ho hroot]
    rfl
  | true =>
    rw [hf.muted_of_mem_nodes her hroot ((hf.mem_nodes_iff her).mpr ho.to_reflTransGen)]
    rfl

/-- Likewise for the points of a chain. -/
theorem Forest.chainPoints_eq_mute (hf : db.Forest) {root : ExprId} {e : Expression}
    (h : db.expr? root = some e) (cfg : ScoringConfig) :
    db.chainPoints root cfg (db.muted root) =
      (db.bare.chainPoints root cfg false).map (List.map (Point.mute db.muted)) := by
  have he := db.expr_eq_ok_iff.mpr h
  simp only [chainPoints, expr_bare, chainOperands_bare, he]
  simp only [Except.map, bind, Except.bind]
  have hwidth : e.bare.bitwiseWidth cfg = e.bitwiseWidth cfg := rfl
  have hcat : e.bare.category = e.category := rfl
  rw [hwidth, hcat]
  cases hops : db.chainOperands root with
  | error fault => rfl
  | ok operands =>
    refine bind_eq_map_of_eq_map (mapM_eq_map_mapM fun o ho =>
      hf.operandPoints_eq_mute (hf.under_of_chainOperands h hops o ho) _ _) fun each => ?_
    have join (rest : List Point) :
        (each.map (List.map (Point.mute db.muted))).flatten ++ rest.map (Point.mute db.muted) =
          (each.flatten ++ rest).map (Point.mute db.muted) := by
      rw [← List.map_flatten, ← List.map_append]
    split
    · apply bind_eq_map_of_eq_map (Evidence.points_eq_mute _ .allTrue root db.muted _)
      intro rest
      rw [join]
      rfl
    · apply bind_eq_map_of_eq_map (Evidence.points_eq_mute _ .allFalse root db.muted _)
      intro rest
      rw [join]
      rfl

/-- Likewise for the points of a node. -/
theorem Forest.nodePoints_eq_mute (hf : db.Forest) {id : ExprId} {e : Expression}
    (h : db.expr? id = some e) (cfg : ScoringConfig) :
    db.nodePoints id cfg (db.muted id) =
      (db.bare.nodePoints id cfg false).map (Option.map (List.map (Point.mute db.muted))) := by
  simp only [nodePoints, isSubsumed_bare, chainRole_bare]
  apply bind_eq_map
  intro subsumed
  cases subsumed with
  | true => rfl
  | false =>
    apply bind_eq_map
    intro role
    rcases role with _ | (_ | _ | _)
    · exact bind_eq_map_of_eq_map (singlePoints_eq_mute id cfg db.muted) fun _ => rfl
    · exact bind_eq_map_of_eq_map (hf.chainPoints_eq_mute h cfg) fun _ => rfl
    · rfl
    · exact bind_eq_map_of_eq_map (singlePoints_eq_mute id cfg db.muted) fun _ => rfl

/-- The points of a node are those at its place. -/
theorem Forest.scoredPoints_eq (hf : db.Forest) {id : ExprId} {e : Expression}
    (h : db.expr? id = some e) (cfg : ScoringConfig) :
    db.scoredPoints id cfg = db.pointsAt e (db.place id) cfg := by
  rw [scoredPoints, hf.placement_eq h, db.expr_eq_ok_iff.mpr h]
  rfl

/-- Whether a node is scored where it sits has nothing to do with exclusions. -/
theorem isScored_bare (id : ExprId) (e : Expression) (cfg : ScoringConfig) :
    (db.bare.place id).isScored e.bare cfg = (db.place id).isScored e cfg := by
  simp only [Placement.isScored, place, depth_bare, allConstant_bare, Expression.isScorable_bare]

/-- Whether a node is scored is read off what is bare. -/
theorem isScored_congr {db' : Database} (hb : db'.bare = db.bare) {e e' : Expression}
    (he : e'.bare = e.bare) (id : ExprId) (cfg : ScoringConfig) :
    (db'.place id).isScored e' cfg = (db.place id).isScored e cfg := by
  rw [← isScored_bare, hb, he, isScored_bare]

/-- Exclusions decide which points of a node are excluded, and on nothing else. -/
theorem Forest.scoredPoints_eq_mute (hf : db.Forest) {id : ExprId} {e : Expression}
    (h : db.expr? id = some e) (cfg : ScoringConfig) :
    db.scoredPoints id cfg =
      (db.bare.scoredPoints id cfg).map (Option.map (List.map (Point.mute db.muted))) := by
  have hb : db.bare.expr? id = some e.bare := by rw [expr?_bare, h]; rfl
  rw [hf.scoredPoints_eq h, hf.bare.scoredPoints_eq hb, pointsAt, pointsAt, isScored_bare]
  cases (db.place id).isScored e cfg with
  | false => rfl
  | true =>
    change db.nodePoints id cfg (db.muted id) = (db.bare.nodePoints id cfg (db.bare.muted id)).map _
    rw [hf.muted_bare h]
    exact hf.nodePoints_eq_mute h cfg

/-! ## Sites -/

/-- A node that is scored on its own is the site of its points. -/
theorem singlePoints_site {id : ExprId} {cfg : ScoringConfig} {excluded : Bool}
    {points : List Point} (h : db.singlePoints id cfg excluded = .ok points) :
    ∀ p ∈ points, p.site = id := by
  intro p hp
  obtain ⟨e, he, -⟩ := bind_eq_ok_iff.mp h
  have hkey : p.key ∈ points.map Point.key := List.mem_map_of_mem hp
  rw [map_key_singlePoints (db.expr_eq_ok_iff.mp he) h, List.mem_flatMap] at hkey
  obtain ⟨kind, -, hkey⟩ := hkey
  exact (mem_keysAt hkey).1

/-- Who tells the points of a chain has found its operands. -/
theorem exists_chainOperands_of_chainPoints {root : ExprId} {cfg : ScoringConfig} {excluded : Bool}
    {points : List Point} (h : db.chainPoints root cfg excluded = .ok points) :
    ∃ operands, db.chainOperands root = .ok operands := by
  obtain ⟨_, -, h⟩ := bind_eq_ok_iff.mp h
  obtain ⟨operands, hops, -⟩ := bind_eq_ok_iff.mp h
  exact ⟨operands, hops⟩

/-- The sites of a chain's points are its root and its operands. -/
theorem Forest.chainPoints_site (hf : db.Forest) {root : ExprId} {e : Expression}
    (h : db.expr? root = some e) {cfg : ScoringConfig} {excluded : Bool} {points : List Point}
    (hpoints : db.chainPoints root cfg excluded = .ok points) :
    ∀ p ∈ points, p.site ∈ db.nodes root := by
  intro p hp
  obtain ⟨operands, hops⟩ := exists_chainOperands_of_chainPoints hpoints
  have hkey : p.key ∈ points.map Point.key := List.mem_map_of_mem hp
  rw [map_key_chainPoints h hops hpoints, List.mem_append, List.mem_flatMap] at hkey
  rcases hkey with ⟨o, ho, hkey⟩ | hkey
  · obtain ⟨rfl, -⟩ : p.site = o ∧ _ := mem_keysAt hkey
    exact (hf.mem_nodes_iff h).mpr (hf.under_of_chainOperands h hops _ ho).to_reflTransGen
  · obtain ⟨hsite, -⟩ : p.site = root ∧ _ := mem_keysAt hkey
    rw [hsite]
    exact hf.self_mem_nodes h

/-- A node that is scored has the points of the chain whose root it is, or else its own. -/
theorem Forest.scoredPoints_cases (hf : db.Forest) {id : ExprId} {e : Expression}
    (h : db.expr? id = some e) {cfg : ScoringConfig} {points : List Point}
    (hpoints : db.scoredPoints id cfg = .ok (some points)) :
    (db.chainRole id cfg = .ok (some .root) ∧
        db.chainPoints id cfg (db.muted id) = .ok points) ∨
      ((db.chainRole id cfg ≠ .ok (some .root) ∧ db.chainRole id cfg ≠ .ok (some .interior)) ∧
        db.singlePoints id cfg (db.muted id) = .ok points) := by
  have single (h' : (do return some (← db.singlePoints id cfg (db.muted id))) =
      Except.ok (some points)) : db.singlePoints id cfg (db.muted id) = .ok points := by
    obtain ⟨l, hl, h'⟩ := bind_eq_ok_iff.mp h'
    cases h'
    exact hl
  rw [hf.scoredPoints_eq h, pointsAt] at hpoints
  split at hpoints
  · obtain ⟨subsumed, -, hpoints⟩ := bind_eq_ok_iff.mp hpoints
    split at hpoints
    · cases hpoints
    · obtain ⟨role, hrole, hpoints⟩ := bind_eq_ok_iff.mp hpoints
      change db.chainRole id cfg = .ok role at hrole
      rw [hrole]
      rcases role with _ | (_ | _ | _)
      · exact .inr ⟨by simp, single hpoints⟩
      · obtain ⟨l, hl, hpoints⟩ := bind_eq_ok_iff.mp hpoints
        cases hpoints
        exact .inl ⟨rfl, hl⟩
      · cases hpoints
      · exact .inr ⟨by simp, single hpoints⟩
  · cases hpoints

/-- The sites of a node's points are in the tree below it. -/
theorem Forest.scoredPoints_site (hf : db.Forest) {id : ExprId} {e : Expression}
    (h : db.expr? id = some e) {cfg : ScoringConfig} {points : List Point}
    (hpoints : db.scoredPoints id cfg = .ok (some points)) :
    ∀ p ∈ points, p.site ∈ db.nodes id := by
  rcases hf.scoredPoints_cases h hpoints with ⟨-, hchain⟩ | ⟨-, hsingle⟩
  · exact hf.chainPoints_site h hchain
  · intro p hp
    rw [singlePoints_site hsingle p hp]
    exact hf.self_mem_nodes h

/-! ## The points of a node as a list -/

/-- The points of the node can be told. -/
def Scorable (db : Database) (cfg : ScoringConfig) (id : ExprId) : Prop :=
  ∃ points, db.scoredPoints id cfg = .ok points

/-- The points a node is scored on. -/
def points (db : Database) (cfg : ScoringConfig) (id : ExprId) : List Point :=
  (Checked.getD (db.scoredPoints id cfg) none).getD []

/-- The points of a node are those that the code scores. -/
theorem points_of_scoredPoints {cfg : ScoringConfig} {id : ExprId} {o : Option (List Point)}
    (h : db.scoredPoints id cfg = .ok o) : db.points cfg id = o.getD [] := by
  rw [points, h, Checked.getD]

/-- The nodes that are underlined for the points of a node. -/
def sites (db : Database) (cfg : ScoringConfig) (id : ExprId) : List ExprId :=
  (db.points cfg id).map Point.site

/-- The points of a node are those that it is scored on. -/
theorem mem_points_iff {cfg : ScoringConfig} {id : ExprId} {p : Point} :
    p ∈ db.points cfg id ↔ ∃ points, db.scoredPoints id cfg = .ok (some points) ∧ p ∈ points := by
  rw [points]
  rcases db.scoredPoints id cfg with _ | (_ | points) <;> simp [Checked.getD]

/-- A site of a node is where one of its points is. -/
theorem mem_sites_iff {cfg : ScoringConfig} {id x : ExprId} :
    x ∈ db.sites cfg id ↔
      ∃ points, db.scoredPoints id cfg = .ok (some points) ∧ ∃ p ∈ points, p.site = x := by
  simp only [sites, List.mem_map, mem_points_iff]
  constructor
  · rintro ⟨p, ⟨points, hpoints, hp⟩, hsite⟩
    exact ⟨points, hpoints, p, hp, hsite⟩
  · rintro ⟨points, hpoints, p, hp, hsite⟩
    exact ⟨p, ⟨points, hpoints, hp⟩, hsite⟩

/-- Only existing nodes are scored. -/
theorem exists_expr?_of_mem_sites {cfg : ScoringConfig} {id x : ExprId}
    (h : x ∈ db.sites cfg id) : ∃ e, db.expr? id = some e := by
  obtain ⟨points, hpoints, -⟩ := mem_sites_iff.mp h
  obtain ⟨p, -, hpoints⟩ := bind_eq_ok_iff.mp hpoints
  obtain ⟨e, he, -⟩ := bind_eq_ok_iff.mp hpoints
  exact ⟨e, db.expr_eq_ok_iff.mp he⟩

namespace Forest

variable (hf : db.Forest) {cfg : ScoringConfig} {id : ExprId} {e : Expression}

include hf

/-- Flags do not matter to whether a node can be scored. -/
theorem scorable_bare (h : db.expr? id = some e) :
    db.bare.Scorable cfg id ↔ db.Scorable cfg id := by
  rw [Scorable, Scorable, hf.scoredPoints_eq_mute h]
  cases db.bare.scoredPoints id cfg <;> simp [Except.map]

/-- The points of a node are those of the bare one, muted. -/
theorem points_eq_mute (h : db.expr? id = some e) :
    db.points cfg id = (db.bare.points cfg id).map (Point.mute db.muted) := by
  rw [points, points, hf.scoredPoints_eq_mute h]
  rcases db.bare.scoredPoints id cfg with _ | (_ | _) <;> rfl

/-- Flags do not matter to sites. -/
theorem sites_bare (h : db.expr? id = some e) : db.bare.sites cfg id = db.sites cfg id := by
  rw [sites, sites, hf.points_eq_mute h, List.map_map]
  rfl

/-- A point is excluded just if its site is muted. -/
theorem excluded_of_mem_points (h : db.expr? id = some e) {p : Point}
    (hp : p ∈ db.points cfg id) : p.excluded = db.muted p.site := by
  rw [hf.points_eq_mute h] at hp
  obtain ⟨q, -, rfl⟩ := List.mem_map.mp hp
  rfl

/-- The sites of a node are below it. -/
theorem mem_nodes_of_mem_sites (h : db.expr? id = some e) {x : ExprId}
    (hx : x ∈ db.sites cfg id) : x ∈ db.nodes id := by
  obtain ⟨points, hpoints, p, hp, rfl⟩ := mem_sites_iff.mp hx
  exact hf.scoredPoints_site h hpoints p hp

/-- A node that is interior to a chain has no points. -/
theorem points_interior (h : db.expr? id = some e)
    (hrole : db.chainRole id cfg = .ok (some .interior)) : db.points cfg id = [] := by
  rcases ho : db.scoredPoints id cfg with _ | (_ | points)
  · rw [points, ho]
    rfl
  · rw [points_of_scoredPoints ho]
    rfl
  · rcases hf.scoredPoints_cases h ho with ⟨hroot, -⟩ | ⟨⟨-, hnot⟩, -⟩
    · cases hrole.symm.trans hroot
    · exact (hnot hrole).elim

/-- The points of a node depend on the exclusions in the tree below it and above, and on what is
bare. -/
theorem points_congr (h : db.expr? id = some e) {db' : Database} (hb : db'.bare = db.bare)
    (hm : ∀ x ∈ db.nodes id, db'.muted x = db.muted x) :
    db'.points cfg id = db.points cfg id := by
  obtain ⟨e', he', -⟩ := exists_expr?_of_bare hb h
  rw [(hf.congr hb).points_eq_mute he', hf.points_eq_mute h, hb]
  apply List.map_congr_left
  intro p hp
  have hsite : p.site ∈ db.sites cfg id := by
    rw [← hf.sites_bare h]
    exact List.mem_map_of_mem hp
  rw [Point.mute, Point.mute, hm p.site (hf.mem_nodes_of_mem_sites h hsite)]

/-- Whether a node can be scored is read off what is bare. -/
theorem scorable_congr (h : db.expr? id = some e) {db' : Database} (hb : db'.bare = db.bare) :
    db'.Scorable cfg id ↔ db.Scorable cfg id := by
  obtain ⟨e', he', -⟩ := exists_expr?_of_bare hb h
  rw [← (hf.congr hb).scorable_bare he', hb, hf.scorable_bare h]

theorem scorable_nodes_congr (h : db.expr? id = some e) {db' : Database} (hb : db'.bare = db.bare)
    (hs : ∀ n ∈ db.nodes id, db.Scorable cfg n) : ∀ n ∈ db'.nodes id, db'.Scorable cfg n := by
  intro n hn
  rw [nodes_congr hb] at hn
  obtain ⟨en, hen⟩ := hf.expr?_of_mem_nodes h hn
  exact (hf.scorable_congr hen hb).mpr (hs n hn)

end Forest

/-- The points of all nodes of a statement's tree can be told. -/
def TreeScorable (db : Database) (cfg : ScoringConfig) (stmt : StmtId) : Prop :=
  ∀ st, db.stmt? stmt = some st → ∀ n ∈ db.nodes st.root, db.Scorable cfg n

theorem Forest.treeScorable_congr (hf : db.Forest) {db' : Database} (hb : db'.bare = db.bare)
    {cfg : ScoringConfig} {stmt : StmtId} (h : db.TreeScorable cfg stmt) :
    db'.TreeScorable cfg stmt := by
  intro st' hs'
  obtain ⟨st, hs, hbare⟩ := exists_stmt?_of_bare hb.symm hs'
  rw [← Statement.root_eq_of_bare hbare]
  obtain ⟨er, her, -⟩ := hf.root hs
  exact hf.scorable_nodes_congr her hb (h st hs)

end Database

end LogicCoverage
