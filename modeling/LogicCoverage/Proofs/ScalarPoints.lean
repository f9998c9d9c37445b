import LogicCoverage.Proofs.Scorability
import LogicCoverage.Proofs.TreeScore

/-!
# Points of whole values

Where values are not scored bit by bit, a gate scored on its own has three points: one for each
input that decided it, and one for both inputs that left it undecided. A chain has one for each
operand that decided it, and one for the operands that left it undecided together.
-/

namespace LogicCoverage

open Relation

theorem Category.eq_of_isGate {c : Category} (h : c.isGate = true) :
    c = .andGate ∨ c = .orGate := by
  simpa [isGate] using h

theorem Category.eq_of_isPaired {c : Category} (h : c.isPaired = true) :
    c = .andGate ∨ c = .orGate ∨ c = .comparison := by
  simpa [isPaired, isGate, or_assoc] using h

/-- The input of a gate took the value that decides the gate: false at an AND, true at an OR. -/
def Expression.decided (c : Category) (input : Expression) : Bool :=
  if c = .andGate then input.wasFalse else input.wasTrue

/-- Both inputs of the gate left it undecided at the same time. -/
def Expression.undecided (e : Expression) : Bool :=
  if e.category = .andGate then e.eval11 else e.eval00

theorem Expression.bitwiseWidth_eq_none {cfg : ScoringConfig} (h : cfg.bitwise = false)
    (e : Expression) : e.bitwiseWidth cfg = none := by
  rw [bitwiseWidth, h]
  rfl

namespace Database

variable {db : Database} {id o root : ExprId} {e eo : Expression}

theorem inputPoints_scalar (ho : db.expr? o = some eo) (site : ExprId) (kind : PointKind)
    (scalar : Expression → Bool) (pick : BitHistory → BitMask) (excluded : Bool) :
    db.inputPoints site o kind scalar pick excluded none =
      .ok [⟨kind, scalar eo, excluded, none, site⟩] := by
  rw [inputPoints, db.expr_eq_ok_iff.mpr ho]
  rfl

/-- Only values are subsumed. -/
theorem isSubsumed_of_isPaired (h : db.expr? id = some e) (hpaired : e.category.isPaired = true) :
    db.isSubsumed id = .ok false := by
  rw [isSubsumed, db.expr_eq_ok_iff.mpr h, ok_bind]
  rcases Category.eq_of_isPaired hpaired with hcat | hcat | hcat
  · rw [hcat]
  · rw [hcat]
  · rw [hcat]

/-- A gate or comparison that is scored on its own has both inputs. -/
theorem paired_of_singlePoints (h : db.expr? id = some e) (hpaired : e.category.isPaired = true)
    {cfg : ScoringConfig} {excluded : Bool} {points : List Point}
    (hpoints : db.singlePoints id cfg excluded = .ok points) : e.left ≠ none ∧ e.right ≠ none := by
  obtain ⟨e', he', hpoints⟩ := bind_eq_ok_iff.mp hpoints
  cases h.symm.trans (db.expr_eq_ok_iff.mp he')
  have both {left right : ExprId} (hpair : e.pair id = .ok (left, right)) :
      e.left ≠ none ∧ e.right ≠ none := by
    obtain ⟨hleft, hright⟩ := Expression.pair_eq_ok_iff.mp hpair
    simp [hleft, hright]
  rcases Category.eq_of_isPaired hpaired with hcat | hcat | hcat
  all_goals
    simp only [hcat] at hpoints
    obtain ⟨_, hpair, -⟩ := bind_eq_ok_iff.mp hpoints
    exact both hpair

/-- A node scored on its own has four points at most. -/
theorem length_singlePoints_le (h : db.expr? id = some e) {cfg : ScoringConfig}
    (hbits : cfg.bitwise = false) {excluded : Bool} {points : List Point}
    (hpoints : db.singlePoints id cfg excluded = .ok points) : points.length ≤ 4 := by
  rw [← List.length_map Point.key, map_key_singlePoints h hpoints,
    Expression.bitwiseWidth_eq_none hbits]
  cases e.category <;> simp [Category.kinds, keysAt, bitsOf]

namespace Forest

variable (hf : db.Forest)

include hf

/-- A node scored on its own needs nothing but the inputs of a gate or comparison. -/
theorem exists_singlePoints (h : db.expr? id = some e) {cfg : ScoringConfig}
    (hbits : cfg.bitwise = false) (excluded : Bool)
    (hpaired : e.category.isPaired = true → e.left ≠ none ∧ e.right ≠ none) :
    ∃ points, db.singlePoints id cfg excluded = .ok points := by
  refine exists_singlePoints_of h excluded ?_ ?_ hpaired
  · intro kind scalar pick _
    rw [Expression.bitwiseWidth_eq_none hbits]
    exact ⟨_, rfl⟩
  · intro c hc kind scalar pick _
    obtain ⟨ec, hec, -⟩ := hf.child h hc
    rw [Expression.bitwiseWidth_eq_none hbits]
    exact ⟨_, inputPoints_scalar hec id kind scalar pick _⟩

/-- A gate scored on its own is covered when each input decided it and both left it undecided. -/
theorem exists_gatePoints (h : db.expr? id = some e) (hgate : e.category.isGate = true)
    (hboth : e.left ≠ none ∧ e.right ≠ none) (cfg : ScoringConfig) (hbits : cfg.bitwise = false)
    (excluded : Bool) :
    ∃ points, db.singlePoints id cfg excluded = .ok points ∧ points.length = 3 ∧
      (∀ c ∈ e.children, ∀ ec, db.expr? c = some ec →
        ∃ p ∈ points, p.hit = ec.decided e.category ∧ p.excluded = excluded) ∧
      ∃ p ∈ points, p.hit = e.undecided ∧ p.excluded = excluded := by
  obtain ⟨left, right, hleft, hright, hpair⟩ := Expression.exists_pair id hboth
  obtain ⟨el, hel, -⟩ := hf.child h (Expression.mem_children.mpr (.inl hleft))
  obtain ⟨er, her, -⟩ := hf.child h (Expression.mem_children.mpr (.inr hright))
  have hkinds : ∃ l r b, db.singlePoints id cfg excluded =
      .ok [⟨l, el.decided e.category, excluded, none, id⟩,
        ⟨r, er.decided e.category, excluded, none, id⟩, ⟨b, e.undecided, excluded, none, id⟩] := by
    rw [singlePoints, db.expr_eq_ok_iff.mpr h]
    simp only [bind, Except.bind, Expression.bitwiseWidth_eq_none hbits]
    rcases Category.eq_of_isGate hgate with hcat | hcat
    · refine ⟨.leftFalse, .rightFalse, .bothTrue, ?_⟩
      simp only [hpair, inputPoints_scalar hel, inputPoints_scalar her, Expression.decided,
        Expression.undecided, hcat]
      rfl
    · refine ⟨.leftTrue, .rightTrue, .bothFalse, ?_⟩
      simp only [hpair, inputPoints_scalar hel, inputPoints_scalar her, Expression.decided,
        Expression.undecided, hcat]
      rfl
  obtain ⟨l, r, b, hpoints⟩ := hkinds
  refine ⟨_, hpoints, rfl, fun c hc ec hec => ?_,
    ⟨b, e.undecided, excluded, none, id⟩, by simp, rfl, rfl⟩
  rcases Expression.mem_children.mp hc with hcl | hcr
  · cases hleft.symm.trans hcl
    cases hel.symm.trans hec
    exact ⟨_, List.mem_cons_self, rfl, rfl⟩
  · cases hright.symm.trans hcr
    cases her.symm.trans hec
    exact ⟨_, List.mem_cons_of_mem _ List.mem_cons_self, rfl, rfl⟩

theorem operandPoints_scalar (ho : TransGen db.Under o root) (heo : db.expr? o = some eo)
    (c : Category) :
    db.operandPoints root (c = .andGate) (db.muted root) none o =
      .ok [⟨c.operandKind, eo.decided c, db.muted o, none, o⟩] := by
  have hpoint : (if decide (c = .andGate) = true
      then db.inputPoints o o .operandFalse (·.wasFalse) (·.wasFalse) (db.muted o) none
      else db.inputPoints o o .operandTrue (·.wasTrue) (·.wasTrue) (db.muted o) none) =
      .ok [⟨c.operandKind, eo.decided c, db.muted o, none, o⟩] := by
    rw [Category.operandKind, Expression.decided]
    by_cases hc : c = .andGate
    · simp only [hc, decide_true, if_true]
      exact inputPoints_scalar heo o .operandFalse (·.wasFalse) _ _
    · simp only [hc, decide_false, if_false, Bool.false_eq_true]
      exact inputPoints_scalar heo o .operandTrue (·.wasTrue) _ _
  rw [operandPoints]
  cases hroot : db.muted root with
  | false =>
    rw [if_neg Bool.false_ne_true, hf.excludedWithin_eq ho hroot]
    exact hpoint
  | true =>
    obtain ⟨x, -, ⟨ex, hex, hp⟩⟩ := TransGen.tail'_iff.mp ho
    obtain ⟨er, her, -⟩ := hf.parent hex hp
    rw [hf.muted_of_mem_nodes her hroot ((hf.mem_nodes_iff her).mpr ho.to_reflTransGen)] at hpoint ⊢
    exact hpoint

/-- A chain has one point for each operand, and one for all of them. -/
theorem exists_chainPoints (h : db.expr? id = some e) (hgate : e.category.isGate = true)
    (hw : db.WiredChain id) (cfg : ScoringConfig) (hbits : cfg.bitwise = false) :
    ∃ points, db.chainPoints id cfg (db.muted id) = .ok points ∧
      points.length = (db.members id).length + 2 ∧
      ∀ p ∈ points, (p.hit = e.undecided ∧ p.excluded = db.muted id) ∨
        ∃ m c ec, ReflTransGen db.Joined m id ∧ db.Under c m ∧ db.expr? c = some ec ∧
          p.hit = ec.decided e.category ∧ p.excluded = db.muted c := by
  obtain ⟨operands, hops, hfeeds⟩ := hf.exists_operands h hgate hw
  have heach : operands.mapM (db.operandPoints id (e.category = .andGate) (db.muted id) none) =
      .ok (operands.map fun o => [⟨e.category.operandKind,
        (db.expr? o).any (·.decided e.category), db.muted o, none, o⟩]) := by
    refine mapM_eq_ok_map fun o ho => ?_
    obtain ⟨m, -, ⟨eo, heo, -⟩, -⟩ := (hfeeds.mem_iff o).mp ho
    rw [hf.operandPoints_scalar (hf.under_of_chainOperands h hops o ho) heo, heo]
    rfl
  refine ⟨(operands.map fun o => [⟨e.category.operandKind,
      (db.expr? o).any (·.decided e.category), db.muted o, none, o⟩]).flatten ++
    [⟨e.category.wholeKind, e.undecided, db.muted id, none, id⟩], ?_, ?_, ?_⟩
  · rw [chainPoints, db.expr_eq_ok_iff.mpr h, Category.wholeKind, Expression.undecided]
    simp only [ok_bind, Expression.bitwiseWidth_eq_none hbits, hops, heach]
    by_cases hc : e.category = .andGate
    · simp only [hc, decide_true, if_true]
      rfl
    · simp only [hc, decide_false, if_false, Bool.false_eq_true]
      rfl
  · simp [List.length_flatten, hfeeds.length, Function.comp_def]
  · intro p hp
    rcases List.mem_append.mp hp with hp | hp
    · obtain ⟨l, hl, hp⟩ := List.mem_flatten.mp hp
      obtain ⟨o, ho, rfl⟩ := List.mem_map.mp hl
      cases List.mem_singleton.mp hp
      obtain ⟨m, hm, ⟨eo, heo, hlink⟩, -⟩ := (hfeeds.mem_iff o).mp ho
      exact .inr ⟨m, o, eo, hm, ⟨eo, heo, hlink⟩, heo, by rw [heo]; rfl, rfl⟩
    · cases List.mem_singleton.mp hp
      exact .inl ⟨rfl, rfl⟩

/-- The points of a chain are two more than its members. -/
theorem length_chainPoints (h : db.expr? id = some e) (hgate : e.category.isGate = true)
    {cfg : ScoringConfig} (hbits : cfg.bitwise = false) {points : List Point}
    (hpoints : db.chainPoints id cfg (db.muted id) = .ok points) :
    points.length = (db.members id).length + 2 := by
  obtain ⟨operands, hops⟩ := exists_chainOperands_of_chainPoints hpoints
  obtain ⟨points', hpoints', hlength, -⟩ :=
    hf.exists_chainPoints h hgate (hf.wiredChain_of_chainOperands h hops) cfg hbits
  cases hpoints.symm.trans hpoints'
  exact hlength

end Forest

end Database

end LogicCoverage
