import LogicCoverage.Proofs.ScalarPoints
import Mathlib.Algebra.BigOperators.Group.List.Basic
import Mathlib.Algebra.Ring.Int.Defs

/-!
# What chains save

Scored gate by gate, every live member of a chain has three points; scored as a chain, the root has
two more points than there are members and the others have none. All other nodes have the same
points either way. Hence the two totals of a tree differ by a sum over its chains. What covers the
members one by one covers the chain as well.
-/

namespace LogicCoverage

open Relation

/-- The sum over a list is that over the part where something is added. -/
theorem sum_map_filter_of_eq_zero {α M : Type} [AddMonoid M] {l : List α} {p : α → Bool} {f : α → M}
    (h : ∀ a ∈ l, p a = false → f a = 0) : ((l.filter p).map f).sum = (l.map f).sum := by
  induction l with
  | nil => rfl
  | cons a l ih =>
    rw [List.forall_mem_cons] at h
    cases hp : p a with
    | true => rw [List.filter_cons_of_pos hp, List.map_cons, List.map_cons, List.sum_cons,
        List.sum_cons, ih h.2]
    | false => rw [List.filter_cons_of_neg (by simp [hp]), List.map_cons, List.sum_cons, h.1 hp,
        ih h.2, zero_add]

/-- Lists taken together differ in length by the sum of what they differ by one by one. -/
theorem length_flatMap_sub {α β : Type} (l : List α) (f g : α → List β) :
    ((l.flatMap f).length : Int) - (l.flatMap g).length =
      (l.map fun a => ((f a).length : Int) - (g a).length).sum := by
  induction l with
  | nil => rfl
  | cons a l ih =>
    simp only [List.flatMap_cons, List.length_append, List.map_cons, List.sum_cons, ← ih]
    omega

theorem sum_map_flatMap {α β : Type} (l : List α) (g : α → List β) (f : β → Int) :
    ((l.flatMap g).map f).sum = (l.map fun a => ((g a).map f).sum).sum := by
  rw [List.map_flatMap, List.flatMap_def, List.sum_flatten, List.map_map]
  rfl

namespace Database

/-- Nothing in the tree is written to, and no gate or comparison lacks an input. -/
structure Plain (db : Database) (root : ExprId) : Prop where
  read : ∀ x ∈ db.nodes root, ∀ e, db.expr? x = some e → e.lhs = false
  paired : ∀ x ∈ db.nodes root, ∀ e, db.expr? x = some e → e.category.isPaired = true →
    e.left ≠ none ∧ e.right ≠ none

/-- The node is not constant and lies within the budget. -/
def reached (db : Database) (budget : Option UInt32) (n : ExprId) : Bool :=
  !db.allConstant n && ScoringConfig.reaches ⟨true, false, budget⟩ (db.depth n)

variable {db : Database} {cfg : ScoringConfig} {budget : Option UInt32} {root n : ExprId}
  {er e : Expression}

theorem Plain.wired (hp : db.Plain root) : db.Wired root :=
  fun x hx e he hgate => hp.paired x hx e he (Category.isPaired_of_isGate hgate)

theorem chainRole_pairwise (h : cfg.chains = false) : db.chainRole n cfg = .ok none := by
  rw [chainRole, h]
  rfl

/-- Only with chains do nodes have roles. -/
theorem chains_of_chainRole {role : ChainRole} (h : db.chainRole n cfg = .ok (some role)) :
    cfg.chains = true := by
  refine Bool.eq_true_of_not_eq_false fun hchains => ?_
  rw [chainRole_pairwise hchains] at h
  cases h

/-- What is not in a chain has the same points with chains and without. -/
theorem Forest.points_of_not_inChain (hf : db.Forest) (he : db.expr? n = some e)
    (hnot : ¬ db.InChain n) :
    db.points ⟨true, false, budget⟩ n = db.points ⟨false, false, budget⟩ n := by
  obtain ⟨role, hrole⟩ := hf.exists_chainRole he ⟨true, false, budget⟩
  have hnode : db.nodePoints n ⟨true, false, budget⟩ (db.muted n) =
      db.nodePoints n ⟨false, false, budget⟩ (db.muted n) := by
    rw [nodePoints, nodePoints, hrole, chainRole_pairwise rfl]
    rcases role with _ | (_ | _ | _)
    · rfl
    · exact (hnot (.inr ((hf.chainRole_eq_root_iff rfl he).mp hrole).1)).elim
    · exact (hnot (.inl ((hf.chainRole_eq_interior_iff rfl he).mp hrole))).elim
    · rfl
  have hscored : db.scoredPoints n ⟨true, false, budget⟩ =
      db.scoredPoints n ⟨false, false, budget⟩ := by
    rw [hf.scoredPoints_eq he, hf.scoredPoints_eq he, pointsAt, pointsAt]
    exact if_congr Iff.rfl hnode rfl
  rw [points, points, hscored]

namespace Plain

variable (hp : db.Plain root) (hf : db.Forest) (her : db.expr? root = some er)
  (hn : n ∈ db.nodes root)

include hp hf hn

/-- A gate is scored when it is reached. -/
theorem scoredPoints_gate (he : db.expr? n = some e) (hgate : e.category.isGate = true)
    (chains : Bool) (budget : Option UInt32) :
    db.scoredPoints n ⟨chains, false, budget⟩ =
      if db.reached budget n then do
        match ← db.chainRole n ⟨chains, false, budget⟩ with
        | some .interior => .ok none
        | some .root => return some (← db.chainPoints n ⟨chains, false, budget⟩ (db.muted n))
        | some .boundary | none =>
          return some (← db.singlePoints n ⟨chains, false, budget⟩ (db.muted n))
      else .ok none := by
  have hscorable : e.isScorable = true := by
    rw [Expression.isScorable, hp.read n hn e he]
    rcases Category.eq_of_isGate hgate with hcat | hcat
    · rw [hcat]
      rfl
    · rw [hcat]
      rfl
  have hscored : (db.place n).isScored e ⟨chains, false, budget⟩ = db.reached budget n := by
    rw [Placement.isScored, hscorable, Bool.true_and]
    rfl
  rw [hf.scoredPoints_eq he, pointsAt, hscored]
  change (if db.reached budget n then db.nodePoints n ⟨chains, false, budget⟩ (db.muted n)
    else .ok none) = _
  rw [nodePoints, isSubsumed_of_isPaired he (Category.isPaired_of_isGate hgate)]
  rfl

/-- Scored gate by gate, a gate that is reached has three points. They are covered when each of its
inputs has decided it and both have left it undecided, or when it is excluded. -/
theorem exists_points_gate (he : db.expr? n = some e) (hgate : e.category.isGate = true)
    (budget : Option UInt32) :
    ∃ points, db.points ⟨false, false, budget⟩ n = (if db.reached budget n then points else []) ∧
      points.length = 3 ∧
      ((∀ p ∈ points, p.covered = true) →
        (∀ c ∈ e.children, ∀ ec, db.expr? c = some ec →
          (ec.decided e.category || db.muted n) = true) ∧
        (e.undecided || db.muted n) = true) := by
  obtain ⟨points, hpoints, hlength, hinputs, p, hmem, hhit, hexcluded⟩ := hf.exists_gatePoints he
    hgate (hp.wired n hn e he hgate) ⟨false, false, budget⟩ rfl (db.muted n)
  have hscored := hp.scoredPoints_gate hf hn he hgate false budget
  rw [chainRole_pairwise rfl] at hscored
  refine ⟨points, ?_, hlength, fun hcovered => ⟨fun c hc ec hec => ?_, ?_⟩⟩
  · cases hreached : db.reached budget n <;> rw [hreached] at hscored
    · exact points_of_scoredPoints hscored
    · simp only [hpoints, ok_bind, if_true] at hscored
      exact points_of_scoredPoints hscored
  · obtain ⟨q, hq, hqhit, hqexcluded⟩ := hinputs c hc ec hec
    rw [← hqhit, ← hqexcluded]
    exact hcovered q hq
  · rw [← hhit, ← hexcluded]
    exact hcovered p hmem

include her

theorem wiredChain (he : db.expr? n = some e) (hgate : e.category.isGate = true) :
    db.WiredChain n :=
  hf.wiredChain_of_wired he hgate (hf.wired_of_mem_nodes her hp.wired hn)

/-- The points of every node can be told. -/
theorem scorable (cfg : ScoringConfig) (hbits : cfg.bitwise = false) : db.Scorable cfg n := by
  obtain ⟨e, he⟩ := hf.expr?_of_mem_nodes her hn
  refine (hf.scorable_iff he).mpr fun _ _ => ⟨fun hrole => ?_, fun _ _ =>
    hf.exists_singlePoints he hbits (db.muted n) (hp.paired n hn e he)⟩
  have hgate := Forest.isGate_of_chainRole he hrole
  obtain ⟨points, hpoints, -⟩ :=
    hf.exists_chainPoints he hgate (hp.wiredChain hf her hn he hgate) cfg hbits
  exact ⟨points, hpoints⟩

/-- Scored as a chain, the root has two more points than there are members if it is reached: each is
that of an operand, or of all operands together. -/
theorem exists_points_root (he : db.expr? n = some e)
    (hrole : db.chainRole n ⟨true, false, budget⟩ = .ok (some .root)) :
    ∃ points, db.points ⟨true, false, budget⟩ n = (if db.reached budget n then points else []) ∧
      points.length = (db.members n).length + 2 ∧
      ∀ p ∈ points, (p.hit = e.undecided ∧ p.excluded = db.muted n) ∨
        ∃ m c ec, ReflTransGen db.Joined m n ∧ db.Under c m ∧ db.expr? c = some ec ∧
          p.hit = ec.decided e.category ∧ p.excluded = db.muted c := by
  have hgate := Forest.isGate_of_chainRole he hrole
  obtain ⟨points, hpoints, hspec⟩ := hf.exists_chainPoints he hgate
    (hp.wiredChain hf her hn he hgate) ⟨true, false, budget⟩ rfl
  have hscored := hp.scoredPoints_gate hf hn he hgate true budget
  rw [hrole] at hscored
  refine ⟨points, ?_, hspec⟩
  cases hreached : db.reached budget n <;> rw [hreached] at hscored
  · exact points_of_scoredPoints hscored
  · simp only [hpoints, ok_bind, if_true] at hscored
    exact points_of_scoredPoints hscored

end Plain

/-! ## One chain -/

/-- What is saved by scoring a chain as a whole: three points for each live member, less the points
of the chain. -/
def chainSaving (db : Database) (r : ExprId) : Int :=
  3 * ((db.members r).filter fun g => db.isConstantOnly g = .ok false).length -
    ((db.members r).length + 2)

namespace Plain

variable (hp : db.Plain root) (hf : db.Forest) (her : db.expr? root = some er)
  (hn : n ∈ db.nodes root)

include hp hf her hn

/-- The members of a chain have three points each, as far as they are live and the chain is within
the budget. -/
theorem length_points_members (he : db.expr? n = some e) (hgate : e.category.isGate = true) :
    ((db.members n).flatMap (db.points ⟨false, false, budget⟩)).length =
      if ScoringConfig.reaches ⟨true, false, budget⟩ (db.depth n) then
        3 * ((db.members n).filter fun g => db.isConstantOnly g = .ok false).length
      else 0 := by
  have hmember : ∀ g ∈ db.members n, db.isConstantOnly g = .ok (db.allConstant g) ∧
      (db.points ⟨false, false, budget⟩ g).length = if db.reached budget g then 3 else 0 := by
    intro g hg
    have hmem := (hf.members_sublist he).subset hg
    obtain ⟨eg, heg⟩ := hf.expr?_of_mem_nodes he hmem
    have hcategory := category_eq_of_joined ((hf.mem_members_iff he hgate).mp hg) heg he
    obtain ⟨points, hpoints, hlength, -⟩ := hp.exists_points_gate hf (hf.nodes_trans her hn hmem)
      heg (hcategory ▸ hgate) budget
    refine ⟨hf.isConstantOnly_eq heg, ?_⟩
    rw [hpoints]
    split
    · exact hlength
    · rfl
  have hdepth : ∀ g ∈ db.members n, db.depth g = db.depth n := fun g hg =>
    hf.depth_eq_of_joined ((hf.mem_members_iff he hgate).mp hg)
  rw [List.length_flatMap]
  cases hreaches : ScoringConfig.reaches ⟨true, false, budget⟩ (db.depth n) with
  | true =>
    have hpoints : ∀ g ∈ db.members n, (db.points ⟨false, false, budget⟩ g).length =
        if db.isConstantOnly g = .ok false then 3 else 0 := by
      intro g hg
      rw [(hmember g hg).2, (hmember g hg).1, reached, hdepth g hg, hreaches, Bool.and_true]
      cases db.allConstant g <;> rfl
    rw [if_pos rfl, ← sum_map_filter_of_eq_zero (p := fun g => db.isConstantOnly g = .ok false),
      List.map_congr_left (g := fun _ => 3), List.map_const', List.sum_replicate_nat,
      Nat.mul_comm]
    · intro g hg
      obtain ⟨hg, hlive⟩ := List.mem_filter.mp hg
      rw [hpoints g hg, if_pos (of_decide_eq_true hlive)]
    · intro g hg hconstant
      rw [hpoints g hg, if_neg (of_decide_eq_false hconstant)]
  | false =>
    refine List.sum_eq_zero fun k hk => ?_
    obtain ⟨g, hg, rfl⟩ := List.mem_map.mp hk
    rw [(hmember g hg).2, reached, hdepth g hg, hreaches, Bool.and_false]
    rfl

/-- A chain has the points of its root. -/
theorem length_points_chain (he : db.expr? n = some e)
    (hrole : db.chainRole n ⟨true, false, budget⟩ = .ok (some .root)) :
    ((db.members n).flatMap (db.points ⟨true, false, budget⟩)).length =
      if db.reached budget n then (db.members n).length + 2 else 0 := by
  have hgate := Forest.isGate_of_chainRole he hrole
  have hself : n ∈ db.members n := (hf.mem_members_iff he hgate).mpr .refl
  have hothers : ∀ g, g ≠ n → g ∈ db.members n →
      (db.points ⟨true, false, budget⟩ g).length = 0 := by
    intro g hne hg
    have hjoined := (hf.mem_members_iff he hgate).mp hg
    obtain ⟨eg, heg⟩ := hf.expr?_of_mem_nodes he ((hf.members_sublist he).subset hg)
    rw [hf.points_interior heg (hf.chainRole_eq_interior rfl hjoined hne), List.length_nil]
  obtain ⟨points, hpoints, hlength, -⟩ := hp.exists_points_root hf her hn he hrole
  rw [List.length_flatMap, List.sum_map_eq_nsmul_single n _ hothers,
    List.count_eq_one_of_mem (hf.nodup_members he) hself, one_nsmul, hpoints]
  split
  · exact hlength
  · rfl

/-- What a chain saves, if it is scored at all. -/
theorem sum_members (he : db.expr? n = some e)
    (hrole : db.chainRole n ⟨true, false, budget⟩ = .ok (some .root)) :
    ((db.members n).map fun g => ((db.points ⟨false, false, budget⟩ g).length : Int) -
      (db.points ⟨true, false, budget⟩ g).length).sum =
      if db.reached budget n then db.chainSaving n else 0 := by
  have hgate := Forest.isGate_of_chainRole he hrole
  rw [← length_flatMap_sub, hp.length_points_members hf her hn he hgate,
    hp.length_points_chain hf her hn he hrole, reached, chainSaving]
  cases hreaches : ScoringConfig.reaches ⟨true, false, budget⟩ (db.depth n) with
  | false => simp
  | true =>
    cases hconstant : db.allConstant n with
    | false => simp
    | true =>
      -- A constant root has constant members only.
      have hnone : (db.members n).filter (fun g => db.isConstantOnly g = .ok false) = [] := by
        refine List.filter_eq_nil_iff.mpr fun g hg hlive => ?_
        have hmem := (hf.members_sublist he).subset hg
        obtain ⟨eg, heg⟩ := hf.expr?_of_mem_nodes he hmem
        rw [decide_eq_true_eq, hf.isConstantOnly_eq heg,
          hf.allConstant_of_mem_nodes he hconstant hmem] at hlive
        cases hlive
      simp [hnone]

end Plain

/-! ## All chains of a tree -/

/-- The node is the root of a chain or interior to one. -/
def isMember (db : Database) (cfg : ScoringConfig) (n : ExprId) : Bool :=
  db.chainRole n cfg = .ok (some .root) || db.chainRole n cfg = .ok (some .interior)

/-- The roots of the chains in a tree that are scored: those that are not constant and lie within
the budget. -/
def scoredRoots (db : Database) (cfg : ScoringConfig) (root : ExprId) : List ExprId :=
  (db.nodes root).filter fun r => db.chainRole r cfg = .ok (some .root) &&
    db.isConstantOnly r = .ok false && (db.depthOf r).map cfg.reaches = .ok true

namespace Forest

variable (hf : db.Forest)

include hf

theorem isMember_iff (hchains : cfg.chains = true) (he : db.expr? n = some e) :
    db.isMember cfg n = true ↔ db.InChain n := by
  rw [isMember, Bool.or_eq_true, decide_eq_true_eq, decide_eq_true_eq,
    hf.chainRole_eq_root_iff hchains he, hf.chainRole_eq_interior_iff hchains he]
  constructor
  · rintro (⟨hchild, -⟩ | hup)
    · exact .inr hchild
    · exact .inl hup
  · intro hin
    by_cases hup : ∃ p, db.Joined n p
    · exact .inr hup
    · exact .inl ⟨hin.resolve_left hup, fun p hp => hup ⟨p, hp⟩⟩

/-- The members in a statement's tree are those of the chains whose roots it has. -/
theorem perm_members (hchains : cfg.chains = true) {stmt : StmtId} {st : Statement}
    (hs : db.stmt? stmt = some st) :
    ((db.nodes st.root).filter (db.isMember cfg)).Perm
      (((db.nodes st.root).filter fun r => db.chainRole r cfg = .ok (some .root)).flatMap
        db.members) := by
  obtain ⟨er, her, -⟩ := hf.root hs
  have mem_iff {r : ExprId} (hrole : db.chainRole r cfg = .ok (some .root)) {x : ExprId} :
      x ∈ db.members r ↔ ReflTransGen db.Joined x r := by
    obtain ⟨e, he⟩ := expr?_of_chainRole hchains hrole
    exact hf.mem_members_iff he (isGate_of_chainRole he hrole)
  refine (List.perm_ext_iff_of_nodup ((hf.nodup_nodes her).filter _) ?_).mpr fun x => ?_
  · refine List.nodup_flatMap.mpr ⟨fun r hr => ?_, ?_⟩
    · obtain ⟨e, he⟩ := expr?_of_chainRole hchains (of_decide_eq_true (List.mem_filter.mp hr).2)
      exact hf.nodup_members he
    -- a member goes up to one top only
    · refine ((hf.nodup_nodes her).filter _).pairwise_of_forall_ne ?_
      intro r hr r' hr' hne x hx hx'
      have hrole := of_decide_eq_true (List.mem_filter.mp hr).2
      have hrole' := of_decide_eq_true (List.mem_filter.mp hr').2
      exact hne ((hf.isTop_of_chainRole hchains hrole).unique
        (hf.isTop_of_chainRole hchains hrole') ((mem_iff hrole).mp hx) ((mem_iff hrole').mp hx'))
  · simp only [List.mem_filter, List.mem_flatMap, decide_eq_true_eq]
    constructor
    · rintro ⟨hx, hmember⟩
      obtain ⟨ex, hex⟩ := hf.expr?_of_mem_nodes her hx
      obtain ⟨r, hup, hrole⟩ := hf.exists_root hchains ((hf.isMember_iff hchains hex).mp hmember)
      obtain ⟨e, he⟩ := expr?_of_chainRole hchains hrole
      have hxr : x ∈ db.nodes r := (hf.mem_nodes_iff he).mpr (under_of_joined hup)
      refine ⟨r, ⟨?_, hrole⟩, (mem_iff hrole).mpr hup⟩
      -- the root of the chain is in the tree, since no tree is below another
      rcases hf.nodes_total he her hxr hx with hr | hroot
      · exact hr
      · rw [hf.eq_of_root_mem_nodes hs he hroot]
        exact hf.self_mem_nodes he
    · rintro ⟨r, ⟨hr, hrole⟩, hx⟩
      obtain ⟨e, he⟩ := expr?_of_chainRole hchains hrole
      have hxr := (hf.members_sublist he).subset hx
      obtain ⟨ex, hex⟩ := hf.expr?_of_mem_nodes he hxr
      exact ⟨hf.nodes_trans her hr hxr, (hf.isMember_iff hchains hex).mpr
        (hf.inChain_of_joined hchains hrole ((mem_iff hrole).mp hx))⟩

/-- The roots that are scored are those that are reached. -/
theorem scoredRoots_eq (her : db.expr? root = some er) :
    db.scoredRoots ⟨true, false, budget⟩ root =
      ((db.nodes root).filter fun r => db.chainRole r ⟨true, false, budget⟩ =
        .ok (some .root)).filter (db.reached budget) := by
  rw [scoredRoots, List.filter_filter]
  refine List.filter_congr fun r hr => ?_
  obtain ⟨e, he⟩ := hf.expr?_of_mem_nodes her hr
  rw [hf.isConstantOnly_eq he, hf.depthOf_eq he, reached]
  cases db.allConstant r <;>
    cases hreaches : ScoringConfig.reaches ⟨true, false, budget⟩ (db.depth r) <;>
      simp [Except.map, hreaches]

end Forest

/-- The totals of a tree differ by what its chains save. -/
theorem Plain.length_treePoints_sub (hf : db.Forest) {stmt : StmtId} {st : Statement}
    (hs : db.stmt? stmt = some st) (hp : db.Plain st.root) :
    ((db.treePoints ⟨false, false, budget⟩ st.root).length : Int) -
        (db.treePoints ⟨true, false, budget⟩ st.root).length =
      ((db.scoredRoots ⟨true, false, budget⟩ st.root).map db.chainSaving).sum := by
  obtain ⟨er, her, -⟩ := hf.root hs
  rw [treePoints, treePoints, units, units, ← List.flatMap_def, ← List.flatMap_def,
    length_flatMap_sub, ← sum_map_filter_of_eq_zero (p := db.isMember ⟨true, false, budget⟩),
    ((hf.perm_members rfl hs).map _).sum_eq, sum_map_flatMap, hf.scoredRoots_eq her,
    ← sum_map_filter_of_eq_zero (p := db.reached budget)]
  · congr 1
    refine List.map_congr_left fun r hr => ?_
    obtain ⟨hr, hreached⟩ := List.mem_filter.mp hr
    obtain ⟨hr, hrole⟩ := List.mem_filter.mp hr
    obtain ⟨e, he⟩ := hf.expr?_of_mem_nodes her hr
    rw [hp.sum_members hf her hr he (of_decide_eq_true hrole), hreached, if_pos rfl]
  · intro r hr hreached
    obtain ⟨hr, hrole⟩ := List.mem_filter.mp hr
    obtain ⟨e, he⟩ := hf.expr?_of_mem_nodes her hr
    rw [hp.sum_members hf her hr he (of_decide_eq_true hrole), hreached,
      if_neg Bool.false_ne_true]
  · intro n hn hmember
    obtain ⟨e, he⟩ := hf.expr?_of_mem_nodes her hn
    rw [hf.points_of_not_inChain he fun hin => ?_, sub_self]
    rw [(hf.isMember_iff rfl he).mpr hin] at hmember
    cases hmember

/-! ## Coverage -/

theorem Forest.reached_of_joined (hf : db.Forest) {m : ExprId} {em : Expression}
    (hem : db.expr? m = some em) (hup : ReflTransGen db.Joined m n)
    (hlive : db.isConstantOnly m = .ok false) (hreached : db.reached budget n = true) :
    db.reached budget m = true := by
  rw [hf.isConstantOnly_eq hem, Except.ok.injEq] at hlive
  rw [reached, Bool.and_eq_true] at hreached ⊢
  rw [hlive, hf.depth_eq_of_joined hup]
  exact ⟨rfl, hreached.2⟩

namespace Plain

variable (hp : db.Plain root) (hf : db.Forest) (her : db.expr? root = some er)
  (hcovered : ∀ p ∈ db.treePoints ⟨false, false, budget⟩ root, p.covered = true)

include hp hf hcovered

/-- What covers a gate on its own. -/
theorem shown_of_covered (hn : n ∈ db.nodes root) (he : db.expr? n = some e)
    (hgate : e.category.isGate = true) (hreached : db.reached budget n = true) :
    (∀ c ∈ e.children, ∀ ec, db.expr? c = some ec →
      (ec.decided e.category || db.muted n) = true) ∧ (e.undecided || db.muted n) = true := by
  obtain ⟨points, hpoints, -, hshown⟩ := hp.exists_points_gate hf hn he hgate budget
  rw [hreached, if_pos rfl] at hpoints
  exact hshown fun p hmem => hcovered p (mem_treePoints.mpr ⟨n, hn, hpoints ▸ hmem⟩)

include her

variable (hlive : ∀ x ∈ db.nodes root, db.InChain x → db.isConstantOnly x = .ok false)

include hlive

/-- Live members that are covered one by one cover their chain: an operand that decided its gate
decided the chain, and one whose gate is excluded is excluded with it. -/
theorem covered_of_root (hn : n ∈ db.nodes root) (he : db.expr? n = some e)
    (hrole : db.chainRole n ⟨true, false, budget⟩ = .ok (some .root)) :
    ∀ p ∈ db.points ⟨true, false, budget⟩ n, p.covered = true := by
  intro p hmem
  have hgate := Forest.isGate_of_chainRole he hrole
  obtain ⟨points, hpoints, -, hspec⟩ := hp.exists_points_root hf her hn he hrole
  rw [hpoints] at hmem
  cases hreached : db.reached budget n with
  | false =>
    rw [hreached] at hmem
    exact (List.not_mem_nil hmem).elim
  | true =>
    rw [hreached, if_pos rfl] at hmem
    rcases hspec p hmem with ⟨hhit, hexcluded⟩ | ⟨m, c, ec, hup, hunder, hec, hhit, hexcluded⟩
    · rw [Point.covered, hhit, hexcluded]
      exact (hp.shown_of_covered hf hcovered hn he hgate hreached).2
    · have hmn : m ∈ db.nodes n := (hf.mem_nodes_iff he).mpr (under_of_joined hup)
      have hm := hf.nodes_trans her hn hmn
      obtain ⟨em, hem⟩ := hf.expr?_of_mem_nodes her hm
      have hcategory := category_eq_of_joined hup hem he
      have hmreached := hf.reached_of_joined hem hup
        (hlive m hm (hf.inChain_of_joined rfl hrole hup)) hreached
      have hdecided := (hp.shown_of_covered hf hcovered hm hem (hcategory ▸ hgate) hmreached).1 c
        ((hf.mem_children_iff hem).mpr hunder) ec hec
      rw [hcategory, Bool.or_eq_true] at hdecided
      rw [Point.covered, hhit, hexcluded, Bool.or_eq_true]
      refine hdecided.imp_right fun hmuted => ?_
      exact hf.muted_of_mem_nodes hem hmuted ((hf.mem_nodes_iff hem).mpr (.single hunder))

/-- A tree that is complete gate by gate is complete with chains. -/
theorem covered_of_pairwise :
    ∀ p ∈ db.treePoints ⟨true, false, budget⟩ root, p.covered = true := by
  intro p hmem
  obtain ⟨n, hn, hmem⟩ := mem_treePoints.mp hmem
  obtain ⟨e, he⟩ := hf.expr?_of_mem_nodes her hn
  by_cases hin : db.InChain n
  · have hmember : db.isMember ⟨true, false, budget⟩ n = true := (hf.isMember_iff rfl he).mpr hin
    rw [isMember, Bool.or_eq_true, decide_eq_true_eq, decide_eq_true_eq] at hmember
    rcases hmember with hroot | hinterior
    · exact hp.covered_of_root hf her hcovered hlive hn he hroot p hmem
    · rw [hf.points_interior he hinterior] at hmem
      exact (List.not_mem_nil hmem).elim
  · rw [hf.points_of_not_inChain he hin] at hmem
    exact hcovered p (mem_treePoints.mpr ⟨n, hn, hmem⟩)

end Plain

theorem Scored.hit_eq_total_iff {marks marks' : PassMarks} {counts : TreeCounts} {db' : Database}
    (h : db.Scored cfg root marks counts marks' db') :
    counts.hit = counts.total ↔ ∀ p ∈ db.treePoints cfg root, p.covered = true := by
  rw [← UInt32.toNat_inj, h.counts.hit, h.counts.total, List.countP_eq_length]

/-- On a consistent database, a statement's tree in which nothing is written to and no gate or
comparison lacks an input is scored with chains and without, unless its points are too many for a
counter or its numbers run out. The total without chains exceeds the total with chains by what the
scored chains save: three points for each live member, less two more points than there are members.
If all members of chains are live and the tree is complete without chains, so it is with chains. -/
theorem computeTree_chains (hdb : db.check = .ok ()) {stmt : StmtId} {st : Statement}
    (hs : db.stmt? stmt = some st) (hp : db.Plain st.root) (budget : Option UInt32)
    {marks marks' : PassMarks} (hm : ∀ id, marks.counted id = false)
    (hm' : ∀ id, marks'.counted id = false) :
    (∀ chains fault, db.computeTree st.root ⟨chains, false, budget⟩ marks = .error fault →
      (fault = .counterOverflow ∧
        UInt32.size ≤ (db.treePoints ⟨chains, false, budget⟩ st.root).length) ∨
      (fault = .underlinesExhausted ∧ db.Crowded ⟨chains, false, budget⟩ st.root)) ∧
    ∀ off offMarks offDb on onMarks onDb,
      db.computeTree st.root ⟨false, false, budget⟩ marks = .ok (off, offMarks, offDb) →
      db.computeTree st.root ⟨true, false, budget⟩ marks' = .ok (on, onMarks, onDb) →
        (off.total.toNat : Int) - on.total.toNat =
          ((db.scoredRoots ⟨true, false, budget⟩ st.root).map db.chainSaving).sum ∧
        (∀ r, (∀ g ∈ db.members r, db.isConstantOnly g = .ok false) →
          db.chainSaving r = 2 * (db.members r).length - 2) ∧
        ((∀ x ∈ db.nodes st.root, db.InChain x → db.isConstantOnly x = .ok false) →
          off.hit = off.total → on.hit = on.total) := by
  have hf := forest_of_check hdb
  obtain ⟨er, her, -⟩ := hf.root hs
  constructor
  · intro chains fault h
    cases hf.unscored_of_computeTree hs (fun n _ => hm n) h with
    | node hn herror =>
      obtain ⟨points, hpoints⟩ := hp.scorable hf her hn ⟨chains, false, budget⟩ rfl
      cases hpoints.symm.trans herror
    | points hsize => exact .inl ⟨rfl, hsize⟩
    | numbers hcrowded => exact .inr ⟨rfl, hcrowded⟩
  · intro off offMarks offDb on onMarks onDb hoff hon
    have hoff := hf.scored_of_computeTree hs (fun n _ => hm n) hoff
    have hon := hf.scored_of_computeTree hs (fun n _ => hm' n) hon
    refine ⟨?_, fun r hlive => ?_, fun hlive hcomplete => ?_⟩
    · rw [hoff.counts.total, hon.counts.total]
      exact hp.length_treePoints_sub hf hs
    · rw [chainSaving, List.filter_eq_self.mpr fun g hg => decide_eq_true (hlive g hg)]
      omega
    · rw [hon.hit_eq_total_iff]
      exact hp.covered_of_pairwise hf her (hoff.hit_eq_total_iff.mp hcomplete) hlive

/-- Nine points without chains, and seven with them: of the three gates, two are in a chain. -/
theorem computeTree_chains_mixedGates :
    mixedGates.check = .ok () ∧ mixedGates.stmt? ⟨0⟩ = some ⟨⟨6⟩, false⟩ ∧ mixedGates.Plain ⟨6⟩ ∧
      (∀ id, (PassMarks.new 7).counted id = false) ∧
      (mixedGates.computeTree ⟨6⟩ ⟨false, false, none⟩ (.new 7)).map (·.1) = .ok ⟨1, 9, 0⟩ ∧
      (mixedGates.computeTree ⟨6⟩ ⟨true, false, none⟩ (.new 7)).map (·.1) = .ok ⟨2, 7, 1⟩ ∧
      9 - 7 =
        ((mixedGates.scoredRoots ⟨true, false, none⟩ ⟨6⟩).map mixedGates.chainSaving).sum := by
  have hdb : mixedGates.check = .ok () := by decide
  have hs : mixedGates.stmt? ⟨0⟩ = some ⟨⟨6⟩, false⟩ := by decide
  have hread : ∀ e ∈ mixedGates.exprs, e.lhs = false := by decide
  have hpaired : ∀ e ∈ mixedGates.exprs, e.category.isPaired = true →
      e.left ≠ none ∧ e.right ≠ none := by decide
  have hp : mixedGates.Plain ⟨6⟩ :=
    ⟨fun _ _ e he => hread e (Array.mem_of_getElem? he),
      fun _ _ e he => hpaired e (Array.mem_of_getElem? he)⟩
  have hoff : (mixedGates.computeTree ⟨6⟩ ⟨false, false, none⟩ (.new 7)).map (·.1) =
      .ok ⟨1, 9, 0⟩ := by decide +kernel
  have hon : (mixedGates.computeTree ⟨6⟩ ⟨true, false, none⟩ (.new 7)).map (·.1) =
      .ok ⟨2, 7, 1⟩ := by decide +kernel
  refine ⟨hdb, hs, hp, PassMarks.counted_new 7, hoff, hon, ?_⟩
  obtain ⟨-, hruns⟩ := computeTree_chains hdb hs hp none (PassMarks.counted_new 7)
    (PassMarks.counted_new 7)
  rcases h : mixedGates.computeTree ⟨6⟩ ⟨false, false, none⟩ (.new 7) with
    _ | ⟨off, offMarks, offDb⟩
  · rw [h] at hoff
    cases hoff
  rcases h' : mixedGates.computeTree ⟨6⟩ ⟨true, false, none⟩ (.new 7) with
    _ | ⟨on, onMarks, onDb⟩
  · rw [h'] at hon
    cases hon
  rw [h] at hoff
  rw [h'] at hon
  cases hoff
  cases hon
  exact (hruns _ _ _ _ _ _ h h').1

end Database

end LogicCoverage
