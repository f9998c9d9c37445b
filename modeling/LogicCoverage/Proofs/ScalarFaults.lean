import LogicCoverage.Proofs.Boundless
import LogicCoverage.Proofs.Capacity
import LogicCoverage.Proofs.ChainSaving
import Mathlib.Algebra.BigOperators.Ring.List
import Mathlib.Algebra.Ring.Nat

/-!
# When scoring whole values fails

Where values are not scored bit by bit, a node that is scored needs nothing but inputs: those of its
own if it is a gate or comparison scored on its own, and those of all members if it is the root of a
chain. What is constant, written to, beyond the budget or interior to a chain may lack inputs
without harm. If nothing is lacking, there are at most four points for each node, so that counters
hold them, and all that a scoring can run out of is numbers.
-/

namespace LogicCoverage

open Relation

/-- One of the children is missing. -/
def Expression.LacksChild (e : Expression) : Prop := e.left = none ∨ e.right = none

theorem Expression.not_lacksChild_iff {e : Expression} :
    ¬ e.LacksChild ↔ e.left ≠ none ∧ e.right ≠ none := not_or

namespace Database

/-- The node is measured where it sits: it is not constant, not written to, of a measurable
category, and within the depth budget. -/
structure Measured (db : Database) (cfg : ScoringConfig) (n : ExprId) (e : Expression) : Prop where
  expr? : db.expr? n = some e
  live : db.isConstantOnly n = .ok false
  read : e.lhs = false
  measurable : e.category.isMeasurable = true
  within : ∃ depth, db.depthOf n = .ok depth ∧ cfg.reaches depth = true

/-- What a node lacks that its points are told from. -/
inductive Lacks (db : Database) (cfg : ScoringConfig) (n : ExprId) (e : Expression) : Prop where
  /-- A gate or comparison lacks a child, and is not merely a part of a chain. -/
  | own : e.category.isPaired = true → db.chainRole n cfg ≠ .ok (some .interior) → e.LacksChild →
    Lacks db cfg n e
  /-- The node is the root of a chain, some member of which lacks a child. -/
  | chain {m : ExprId} {em : Expression} : db.chainRole n cfg = .ok (some .root) →
    db.Chained m n → db.expr? m = some em → em.LacksChild → Lacks db cfg n e

/-- The node is measured, and lacks what it is measured on. -/
def Lacking (db : Database) (cfg : ScoringConfig) (n : ExprId) : Prop :=
  ∃ e, db.Measured cfg n e ∧ db.Lacks cfg n e

variable {db : Database} {cfg : ScoringConfig} {n : ExprId} {e : Expression}

/-! ## Nodes -/

namespace Forest

variable (hf : db.Forest)

include hf

theorem measured_iff (he : db.expr? n = some e) :
    db.Measured cfg n e ↔ (db.place n).isScored e cfg = true := by
  rw [Placement.isScored, Expression.isScorable, Bool.and_eq_true, Bool.and_eq_true,
    Bool.and_eq_true, Bool.not_eq_true', Bool.not_eq_true']
  constructor
  · rintro ⟨-, hlive, hread, hmeasurable, depth, hdepth, hreaches⟩
    rw [hf.isConstantOnly_eq he, Except.ok.injEq] at hlive
    cases (hf.depthOf_eq he).symm.trans hdepth
    exact ⟨⟨⟨hmeasurable, hread⟩, hlive⟩, hreaches⟩
  · rintro ⟨⟨⟨hmeasurable, hread⟩, hlive⟩, hreaches⟩
    exact ⟨he, (hf.isConstantOnly_eq he).trans (congrArg _ hlive), hread, hmeasurable, db.depth n,
      hf.depthOf_eq he, hreaches⟩

/-- The root of a chain that is measured and can be scored has a chain that lacks nothing. -/
theorem wiredChain_of_scorable (hmeasured : db.Measured cfg n e) (hscorable : db.Scorable cfg n)
    (hrole : db.chainRole n cfg = .ok (some .root)) : db.WiredChain n := by
  have he := hmeasured.expr?
  have hpaired := Category.isPaired_of_isGate (isGate_of_chainRole he hrole)
  obtain ⟨points, hpoints⟩ := ((hf.scorable_iff he).mp hscorable
    ((hf.measured_iff he).mp hmeasured) (isSubsumed_of_isPaired he hpaired)).1 hrole
  obtain ⟨operands, hops⟩ := exists_chainOperands_of_chainPoints hpoints
  exact hf.wiredChain_of_chainOperands he hops

/-- A gate or comparison that is measured and can be scored has both children, unless it is interior
to a chain. -/
theorem paired_of_scorable (hmeasured : db.Measured cfg n e) (hscorable : db.Scorable cfg n)
    (hpaired : e.category.isPaired = true)
    (hinterior : db.chainRole n cfg ≠ .ok (some .interior)) : e.left ≠ none ∧ e.right ≠ none := by
  have he := hmeasured.expr?
  by_cases hrole : db.chainRole n cfg = .ok (some .root)
  · exact hf.wiredChain_of_scorable hmeasured hscorable hrole n .refl e he
  · obtain ⟨points, hpoints⟩ := ((hf.scorable_iff he).mp hscorable
      ((hf.measured_iff he).mp hmeasured) (isSubsumed_of_isPaired he hpaired)).2 hrole hinterior
    exact paired_of_singlePoints he hpaired hpoints

variable (hbits : cfg.bitwise = false)

include hbits

/-- The points of a node can be told unless it lacks what it is measured on. -/
theorem scorable_iff_not_lacking (he : db.expr? n = some e) :
    db.Scorable cfg n ↔ ¬ db.Lacking cfg n := by
  constructor
  · rintro hscorable ⟨e', hmeasured, hlacks⟩
    cases hlacks with
    | own hpaired hinterior hlack =>
      exact Expression.not_lacksChild_iff.mpr
        (hf.paired_of_scorable hmeasured hscorable hpaired hinterior) hlack
    | @chain m em hrole hchained hem hlack =>
      have htop := hf.isTop_of_chainRole (chains_of_chainRole hrole) hrole
      have hjoined := htop.chained_iff.mp hchained
      exact Expression.not_lacksChild_iff.mpr
        (hf.wiredChain_of_scorable hmeasured hscorable hrole m hjoined em hem) hlack
  · intro hnot
    refine (hf.scorable_iff he).mpr fun hscored _ => ?_
    have hmeasured := (hf.measured_iff he).mpr hscored
    refine ⟨fun hrole => ?_, fun _ hinterior => ?_⟩
    · have hw : db.WiredChain n := fun m hm em hem =>
        Expression.not_lacksChild_iff.mp fun hlack =>
          hnot ⟨e, hmeasured, .chain hrole (.of_joined hm) hem hlack⟩
      obtain ⟨points, hpoints, -⟩ :=
        hf.exists_chainPoints he (isGate_of_chainRole he hrole) hw cfg hbits
      exact ⟨points, hpoints⟩
    · exact hf.exists_singlePoints he hbits (db.muted n) fun hpaired =>
        Expression.not_lacksChild_iff.mp fun hlack =>
          hnot ⟨e, hmeasured, .own hpaired hinterior hlack⟩

/-- A node has four points at most, or four for each member of the chain whose root it is. -/
theorem length_points_le (he : db.expr? n = some e) :
    (db.points cfg n).length ≤ (if db.isMember cfg n then 0 else 4) +
      if db.chainRole n cfg = .ok (some .root) then 4 * (db.members n).length else 0 := by
  rcases ho : db.scoredPoints n cfg with _ | (_ | points)
  · rw [points, ho]
    exact Nat.zero_le _
  · rw [points_of_scoredPoints ho]
    exact Nat.zero_le _
  rw [points_of_scoredPoints ho, Option.getD_some]
  rcases hf.scoredPoints_cases he ho with ⟨hrole, hchain⟩ | ⟨⟨hroot, hinterior⟩, hsingle⟩
  · have hgate := isGate_of_chainRole he hrole
    have hpos := List.length_pos_of_mem ((hf.mem_members_iff he hgate).mpr .refl)
    rw [hf.length_chainPoints he hgate hbits hchain, if_pos hrole]
    omega
  · have hmember : ¬ db.isMember cfg n = true := by simp [isMember, hroot, hinterior]
    rw [if_neg hmember, if_neg hroot]
    exact length_singlePoints_le he hbits hsingle

end Forest

/-! ## Trees -/

section Tree

variable (hf : db.Forest) {stmt : StmtId} {st : Statement} (hs : db.stmt? stmt = some st)

include hf hs

/-- Each member of a tree's chains belongs to one root. -/
theorem Forest.length_filter_isMember (cfg : ScoringConfig) :
    ((db.nodes st.root).map fun r =>
      if db.chainRole r cfg = .ok (some .root) then (db.members r).length else 0).sum =
        ((db.nodes st.root).filter (db.isMember cfg)).length := by
  cases hchains : cfg.chains with
  | true =>
    rw [(hf.perm_members hchains hs).length_eq, List.length_flatMap, List.sum_map_ite]
    simp
  | false =>
    have hnone : db.isMember cfg = fun _ => false := by
      funext n
      simp [isMember, chainRole_pairwise hchains]
    simp [hnone, chainRole_pairwise hchains]

/-- There are at most four points for each node. -/
theorem Forest.length_treePoints_le_nodes (hbits : cfg.bitwise = false) :
    (db.treePoints cfg st.root).length ≤ 4 * (db.nodes st.root).length := by
  obtain ⟨er, her, -⟩ := hf.root hs
  have hothers : ((db.nodes st.root).map fun n => if db.isMember cfg n then 0 else 4).sum =
      4 * ((db.nodes st.root).filter fun n => !db.isMember cfg n).length := by
    simp only [List.sum_map_ite, List.map_const', List.sum_replicate_nat, Nat.mul_zero,
      Nat.zero_add, Bool.decide_eq_true, decide_not]
    exact Nat.mul_comm _ 4
  have hroots : ((db.nodes st.root).map fun n =>
      if db.chainRole n cfg = .ok (some .root) then 4 * (db.members n).length else 0).sum =
      4 * ((db.nodes st.root).filter (db.isMember cfg)).length := by
    rw [← hf.length_filter_isMember hs cfg, ← List.sum_map_mul_left]
    simp only [mul_ite, mul_zero]
  calc (db.treePoints cfg st.root).length
    _ = ((db.nodes st.root).map fun n => (db.points cfg n).length).sum := by
      rw [treePoints, units, List.length_flatten, List.map_map]
      rfl
    _ ≤ ((db.nodes st.root).map fun n => (if db.isMember cfg n then 0 else 4) +
          if db.chainRole n cfg = .ok (some .root) then 4 * (db.members n).length else 0).sum := by
      refine List.sum_le_sum fun n hn => ?_
      obtain ⟨en, hen⟩ := hf.expr?_of_mem_nodes her hn
      exact hf.length_points_le hbits hen
    _ = 4 * (db.nodes st.root).length := by
      rw [List.sum_map_add, hothers, hroots,
        List.length_eq_length_filter_add (l := db.nodes st.root) (db.isMember cfg)]
      omega

/-- Counters hold the points of a tree. -/
theorem Forest.length_treePoints_lt (hsize : db.exprs.size < 2 ^ 30) (hbits : cfg.bitwise = false) :
    (db.treePoints cfg st.root).length < UInt32.size := by
  obtain ⟨er, her, -⟩ := hf.root hs
  have hnodes : (db.nodes st.root).length ≤ db.exprs.size := by
    refine length_le_of_index_lt (hf.nodup_nodes her) fun n hn => ?_
    obtain ⟨en, hen⟩ := hf.expr?_of_mem_nodes her hn
    exact (Array.getElem?_eq_some_iff.mp hen).1
  have hpoints := hf.length_treePoints_le_nodes hs hbits
  rw [UInt32.size]
  omega

/-- Where counters hold the points, scoring a tree with fresh marks fails for a node whose points
cannot be told, or for want of numbers. -/
theorem Forest.exists_fault_iff (hfit : (db.treePoints cfg st.root).length < UInt32.size)
    {marks : PassMarks} (hm : ∀ id, marks.counted id = false) :
    (∃ fault, db.computeTree st.root cfg marks = .error fault) ↔
      (∃ n ∈ db.nodes st.root, ¬ db.Scorable cfg n) ∨
      (∀ n ∈ db.nodes st.root, db.Scorable cfg n) ∧ db.Crowded cfg st.root := by
  obtain ⟨er, her, -⟩ := hf.root hs
  constructor
  · rintro ⟨fault, hfault⟩
    have hunscored := hf.unscored_of_computeTree hs (fun n _ => hm n) hfault
    by_cases hall : ∀ n ∈ db.nodes st.root, db.Scorable cfg n
    · exact .inr ⟨hall, (hunscored.exhausted hall hfit).2⟩
    · exact .inl (by simpa using hall)
  · intro hreason
    cases h : db.computeTree st.root cfg marks with
    | error fault => exact ⟨fault, rfl⟩
    | ok result =>
      obtain ⟨counts, marks', db'⟩ := result
      have hscored := hf.scored_of_computeTree hs (fun n _ => hm n) h
      rcases hreason with ⟨n, hn, hnot⟩ | ⟨-, hcrowded⟩
      · exact absurd (hscored.scorable n hn) hnot
      · exact absurd hcrowded (hscored.not_crowded hf her)

/-- There are not enough numbers if those that would be given do not fit after the highest. -/
theorem Forest.crowded_iff (hall : ∀ n ∈ db.nodes st.root, db.Scorable cfg n) :
    db.Crowded cfg st.root ↔ ∃ k, db.newNumbers st.root cfg = .ok k ∧
      2 ^ 32 - 1 ≤ (Underlining.highest db (db.nodes st.root)).toNat + k := by
  rw [hf.newNumbers_eq hs hall, Crowded, UInt32.size]
  simp only [Except.ok.injEq, exists_eq_left']
  omega

end Tree

/-- On a consistent database of fewer than `2 ^ 30` nodes, scoring a statement's tree by whole
values with fresh marks fails just when some node of it lacks what it is measured on, or when none
does and the numbers that it would give do not fit between the highest number of the tree and the
last number there is. -/
theorem computeTree_fault_iff (hdb : db.check = .ok ()) {stmt : StmtId} {st : Statement}
    (hs : db.stmt? stmt = some st) (hsize : db.exprs.size < 2 ^ 30) (hbits : cfg.bitwise = false)
    {marks : PassMarks} (hm : ∀ id, marks.counted id = false) :
    ∃ nodes, db.subtree st.root = .ok nodes ∧
      ((∃ fault, db.computeTree st.root cfg marks = .error fault) ↔
        (∃ n ∈ nodes, db.Lacking cfg n) ∨
        (¬ ∃ n ∈ nodes, db.Lacking cfg n) ∧ ∃ k, db.newNumbers st.root cfg = .ok k ∧
          2 ^ 32 - 1 ≤ (Underlining.highest db nodes).toNat + k) := by
  have hf := forest_of_check hdb
  obtain ⟨er, her, -⟩ := hf.root hs
  have hscorable : ∀ n ∈ db.nodes st.root, db.Scorable cfg n ↔ ¬ db.Lacking cfg n := by
    intro n hn
    obtain ⟨en, hen⟩ := hf.expr?_of_mem_nodes her hn
    exact hf.scorable_iff_not_lacking hbits hen
  have hsome : (∃ n ∈ db.nodes st.root, ¬ db.Scorable cfg n) ↔
      ∃ n ∈ db.nodes st.root, db.Lacking cfg n :=
    exists_congr fun n => and_congr_right fun hn => by rw [hscorable n hn, not_not]
  have hall : (∀ n ∈ db.nodes st.root, db.Scorable cfg n) ↔
      ¬ ∃ n ∈ db.nodes st.root, db.Lacking cfg n := by
    simp [← hsome]
  refine ⟨db.nodes st.root, hf.subtree_eq her, ?_⟩
  rw [hf.exists_fault_iff hs (hf.length_treePoints_lt hs hsize hbits) hm, hsome, ← hall]
  exact or_congr_right (and_congr_right fun hall => hf.crowded_iff hs hall)

/-- An AND over a signal and an AND that has one input only. -/
def oneArmed : Database where
  exprs := #[
    { Expression.new .signal 1 7 with parent := .expr ⟨1⟩ },
    { Expression.new .bitAnd 1 7 with left := some ⟨0⟩, parent := .expr ⟨3⟩ },
    { Expression.new .signal 1 7 with parent := .expr ⟨3⟩ },
    { Expression.new .bitAnd 1 7 with
      left := some ⟨1⟩, right := some ⟨2⟩, parent := .stmt ⟨0⟩ }]
  stmts := #[⟨⟨3⟩, false⟩]
  scopes := #[⟨"top", .moduleScope, [⟨0⟩], [], .zero⟩]

/-- The upper gate has both its inputs, but is the root of a chain with the lower one. An edge that
fired has all that it needs, but the highest number there is leaves none to begin with. -/
theorem computeTree_fault_iff_oneArmed :
    oneArmed.check = .ok () ∧ oneArmed.stmt? ⟨0⟩ = some ⟨⟨3⟩, false⟩ ∧
      oneArmed.exprs.size < 2 ^ 30 ∧ ScoringConfig.default.bitwise = false ∧
      (∀ id, (PassMarks.new 4).counted id = false) ∧
      oneArmed.Lacking .default ⟨3⟩ ∧
      (∃ fault, oneArmed.computeTree ⟨3⟩ .default (.new 4) = .error fault) ∧
      (Engine.firedEdge 4294967295).newNumbers ⟨0⟩ .default = .ok 0 ∧
      ∃ fault, (Engine.firedEdge 4294967295).computeTree ⟨0⟩ .default (.new 4) = .error fault := by
  have hdb : oneArmed.check = .ok () := by decide
  have hs : oneArmed.stmt? ⟨0⟩ = some ⟨⟨3⟩, false⟩ := by decide
  have hsize : oneArmed.exprs.size < 2 ^ 30 := by decide
  have hupper : oneArmed.expr? ⟨3⟩ = some { Expression.new .bitAnd 1 7 with
      left := some ⟨1⟩, right := some ⟨2⟩, parent := .stmt ⟨0⟩ } := by decide
  have hlower : oneArmed.expr? ⟨1⟩ = some { Expression.new .bitAnd 1 7 with
      left := some ⟨0⟩, parent := .expr ⟨3⟩ } := by decide
  have hlacking : oneArmed.Lacking .default ⟨3⟩ := by
    refine ⟨_, ⟨hupper, by decide +kernel, rfl, rfl, 0, by decide +kernel, rfl⟩, ?_⟩
    refine .chain (by decide +kernel) (.rel _ _ ⟨_, _, hlower, rfl, hupper, rfl⟩) hlower (.inr rfl)
  have hbits : ScoringConfig.default.bitwise = false := rfl
  have hfired : (Engine.firedEdge 4294967295).newNumbers ⟨0⟩ .default = .ok 0 := by decide +kernel
  refine ⟨hdb, hs, hsize, hbits, PassMarks.counted_new 4, hlacking, ?_, hfired, ?_⟩
  · obtain ⟨nodes, hnodes, hiff⟩ :=
      computeTree_fault_iff hdb hs hsize hbits (PassMarks.counted_new 4)
    have hlisted : oneArmed.subtree ⟨3⟩ = .ok [⟨0⟩, ⟨1⟩, ⟨2⟩, ⟨3⟩] := by decide +kernel
    cases hlisted.symm.trans hnodes
    exact hiff.mpr (.inl ⟨⟨3⟩, by decide, hlacking⟩)
  · have hedge : (Engine.firedEdge 4294967295).check = .ok () := by decide
    have hroot : (Engine.firedEdge 4294967295).stmt? ⟨0⟩ = some ⟨⟨0⟩, false⟩ := by decide
    have hfew : (Engine.firedEdge 4294967295).exprs.size < 2 ^ 30 := by decide
    obtain ⟨nodes, hnodes, hiff⟩ :=
      computeTree_fault_iff hedge hroot hfew hbits (PassMarks.counted_new 4)
    have hlisted : (Engine.firedEdge 4294967295).subtree ⟨0⟩ = .ok [⟨0⟩] := by decide +kernel
    cases hlisted.symm.trans hnodes
    refine hiff.mpr (.inr ⟨?_, 0, hfired, by decide +kernel⟩)
    rintro ⟨n, hn, e, hmeasured, hlacks⟩
    cases List.mem_singleton.mp hn
    have hnode : (Engine.firedEdge 4294967295).expr? ⟨0⟩ = some { Expression.new .posEdge 1 7 with
        parent := .stmt ⟨0⟩, wasTrue := true, underline := some 4294967295 } := by decide
    cases hnode.symm.trans hmeasured.expr?
    cases hlacks with
    | own hpaired => cases hpaired
    | chain hrole =>
      have hnone : (Engine.firedEdge 4294967295).chainRole ⟨0⟩ .default = .ok none := by
        decide +kernel
      cases hnone.symm.trans hrole

end Database

end LogicCoverage
