import LogicCoverage.Proofs.Chains

/-!
# Which nodes can be scored

On a forest only what was recorded can be lacking: a child of a gate or comparison, the history of a
wide node, or a word of a mask. Where nothing is, the points of every node can be told.
-/

namespace LogicCoverage

open Relation

/-! ## Masks and evidence -/

/-- Every position below the width has a word. -/
def BitMask.IsWhole (m : BitMask) : Prop := BitMask.wordCount m.width ≤ m.words.size

/-- A whole mask is read everywhere. -/
theorem BitMask.IsWhole.exists_get {m : BitMask} (h : m.IsWhole) (bit : UInt32) :
    ∃ value, m.get bit = .ok value := by
  by_cases hbit : m.width ≤ bit
  · exact ⟨false, get_of_width_le hbit⟩
  · have hlt := UInt32.not_le.mp hbit
    obtain ⟨word, hword⟩ := exists_word h hlt
    exact ⟨_, get_of_lt hlt hword⟩

/-- The masks of a history. -/
def BitHistory.masks (h : BitHistory) : List BitMask :=
  [h.wasTrue, h.wasFalse, h.eval00, h.eval01, h.eval10, h.eval11]

/-- Every bit of the evidence can be read. -/
def Evidence.IsReadable (ev : Evidence) : Prop := ∀ b, ∃ value, ev.bit b = .ok value

/-- Evidence that can be read bit by bit, if that is asked for, expands to points. -/
theorem Evidence.exists_points {ev : Evidence} {width : Option UInt32}
    (h : width ≠ none → ev.IsReadable) (kind : PointKind) (site : ExprId) (excluded : Bool) :
    ∃ points, ev.points kind site excluded width = .ok points := by
  cases width with
  | none => exact ⟨_, rfl⟩
  | some w =>
    rw [points, Checked.tabulate_eq_mapM]
    refine Exists.imp (fun _ hall => hall.1) (exists_mapM_ok (R := fun _ _ => True) fun n _ => ?_)
    obtain ⟨value, hvalue⟩ := h (Option.some_ne_none w) (UInt32.ofNat n)
    exact ⟨⟨kind, value, excluded, some (UInt32.ofNat n), site⟩, by simp only [hvalue]; rfl, trivial⟩

/-- Nodes that are scored bit by bit are wide. -/
theorem Expression.one_lt_of_bitwiseWidth {e : Expression} {cfg : ScoringConfig}
    (h : e.bitwiseWidth cfg ≠ none) : 1 < e.width := by
  rw [bitwiseWidth] at h
  split at h
  · rename_i hwide
    rw [Bool.and_eq_true, decide_eq_true_eq] at hwide
    exact hwide.2
  · exact absurd rfl h

/-- The category is scored on pairs of inputs. -/
def Category.isPaired (c : Category) : Bool := c.isGate || c = .comparison

/-- Gates have two inputs. -/
theorem Category.isPaired_of_isGate {c : Category} (h : c.isGate = true) : c.isPaired = true := by
  rw [isPaired, h, Bool.true_or]

/-- A gate or comparison has both children, and a wide node has a history. -/
def Expression.IsSupplied (e : Expression) : Prop :=
  (e.category.isPaired = true → e.left ≠ none ∧ e.right ≠ none) ∧ (1 < e.width → e.history ≠ none)

instance (e : Expression) : Decidable e.IsSupplied :=
  inferInstanceAs (Decidable ((_ → _ ∧ _) ∧ (_ → _)))

/-- The masks of a wide node have all their words. -/
def Expression.IsWhole (e : Expression) : Prop :=
  1 < e.width → ∀ h ∈ e.history, ∀ m ∈ h.masks, m.IsWhole

instance (e : Expression) : Decidable e.IsWhole :=
  inferInstanceAs (Decidable (1 < e.width → ∀ h ∈ e.history, ∀ m ∈ h.masks, _ ≤ _))

namespace Database

variable {db : Database} {cfg : ScoringConfig} {id : ExprId} {e : Expression}

/-- Nothing is lacking that scoring looks at. -/
structure Recorded (db : Database) : Prop where
  supplied : ∀ e ∈ db.exprs, e.IsSupplied
  whole : ∀ e ∈ db.exprs, e.IsWhole

namespace Recorded

variable (hd : db.Recorded)

include hd

/-- The history of a wide node can be read at every bit. -/
theorem readable (h : db.expr? id = some e) (hwide : 1 < e.width) {pick : BitHistory → BitMask}
    (hpick : ∀ history, pick history ∈ history.masks) (b : UInt32) :
    ∃ value, (do (pick (← e.requireHistory id)).get b) = Except.ok value := by
  have hmem : e ∈ db.exprs := Array.mem_of_getElem? h
  obtain ⟨history, hhistory⟩ := Option.ne_none_iff_exists'.mp ((hd.supplied e hmem).2 hwide)
  rw [Expression.requireHistory, hhistory]
  exact (hd.whole e hmem hwide history hhistory _ (hpick history)).exists_get b

/-- The points that a node has by itself come about if its masks are whole. -/
theorem exists_ownPoints (h : db.expr? id = some e) (cfg : ScoringConfig)
    {pick : BitHistory → BitMask} (hpick : ∀ history, pick history ∈ history.masks)
    (scalar : Bool) (kind : PointKind) (site : ExprId) (excluded : Bool) :
    ∃ points, (Evidence.own id e scalar pick).points kind site excluded (e.bitwiseWidth cfg) =
      .ok points :=
  Evidence.exists_points (fun hwidth b =>
    hd.readable h (Expression.one_lt_of_bitwiseWidth hwidth) hpick b) kind site excluded

/-- Likewise for the points of an input. -/
theorem exists_inputPoints (h : db.expr? id = some e) {pick : BitHistory → BitMask}
    (hpick : ∀ history, pick history ∈ history.masks) (scalar : Expression → Bool)
    (kind : PointKind) (site : ExprId) (excluded : Bool) (width : Option UInt32) :
    ∃ points, db.inputPoints site id kind scalar pick excluded width = .ok points := by
  rw [inputPoints, db.expr_eq_ok_iff.mpr h]
  refine Evidence.exists_points (fun _ b => ?_) kind site excluded
  rw [Evidence.operand]
  dsimp only
  split
  · rename_i hwide
    exact hd.readable h hwide.1 hpick b
  · exact ⟨_, rfl⟩

end Recorded

/-! ## Points -/

/-- The points of a node scored on its own can be told when its evidence and that of its children
can. -/
theorem exists_singlePoints_of (h : db.expr? id = some e) (excluded : Bool)
    (own : ∀ kind scalar (pick : BitHistory → BitMask),
      (∀ history, pick history ∈ history.masks) → ∃ points,
        (Evidence.own id e scalar pick).points kind id excluded (e.bitwiseWidth cfg) = .ok points)
    (input : ∀ c ∈ e.children, ∀ kind scalar (pick : BitHistory → BitMask),
      (∀ history, pick history ∈ history.masks) → ∃ points,
        db.inputPoints id c kind scalar pick excluded (e.bitwiseWidth cfg) = .ok points)
    (hpaired : e.category.isPaired = true → e.left ≠ none ∧ e.right ≠ none) :
    ∃ points, db.singlePoints id cfg excluded = .ok points := by
  have paired (h : e.category.isPaired = true) : ∃ left right,
      left ∈ e.children ∧ right ∈ e.children ∧ e.pair id = .ok (left, right) := by
    obtain ⟨left, right, hleft, hright, heq⟩ := Expression.exists_pair id (hpaired h)
    exact ⟨left, right, Expression.mem_children.mpr (.inl hleft),
      Expression.mem_children.mpr (.inr hright), heq⟩
  rw [singlePoints, db.expr_eq_ok_iff.mpr h]
  simp only [bind, Except.bind]
  cases hcat : e.category with
  | andGate =>
    obtain ⟨left, right, hleft, hright, heq⟩ := paired (by rw [hcat]; rfl)
    obtain ⟨l, hl⟩ := input left hleft .leftFalse (·.wasFalse) (·.wasFalse)
      (by simp [BitHistory.masks])
    obtain ⟨r, hr⟩ := input right hright .rightFalse (·.wasFalse) (·.wasFalse)
      (by simp [BitHistory.masks])
    obtain ⟨both, hboth⟩ := own .bothTrue e.eval11 (·.eval11) (by simp [BitHistory.masks])
    exact ⟨l ++ r ++ both, by simp only [heq, hl, hr, hboth]; rfl⟩
  | orGate =>
    obtain ⟨left, right, hleft, hright, heq⟩ := paired (by rw [hcat]; rfl)
    obtain ⟨l, hl⟩ := input left hleft .leftTrue (·.wasTrue) (·.wasTrue)
      (by simp [BitHistory.masks])
    obtain ⟨r, hr⟩ := input right hright .rightTrue (·.wasTrue) (·.wasTrue)
      (by simp [BitHistory.masks])
    obtain ⟨both, hboth⟩ := own .bothFalse e.eval00 (·.eval00) (by simp [BitHistory.masks])
    exact ⟨l ++ r ++ both, by simp only [heq, hl, hr, hboth]; rfl⟩
  | comparison =>
    obtain ⟨left, right, -, -, heq⟩ := paired (by rw [hcat]; rfl)
    obtain ⟨p00, h00⟩ := own (.joint false false) e.eval00 (·.eval00) (by simp [BitHistory.masks])
    obtain ⟨p01, h01⟩ := own (.joint false true) e.eval01 (·.eval01) (by simp [BitHistory.masks])
    obtain ⟨p10, h10⟩ := own (.joint true false) e.eval10 (·.eval10) (by simp [BitHistory.masks])
    obtain ⟨p11, h11⟩ := own (.joint true true) e.eval11 (·.eval11) (by simp [BitHistory.masks])
    exact ⟨p00 ++ p01 ++ p10 ++ p11, by simp only [heq, h00, h01, h10, h11]; rfl⟩
  | event => exact own .eventFired e.wasTrue (·.wasTrue) (by simp [BitHistory.masks])
  | value | constant | control =>
    obtain ⟨t, ht⟩ := own .valueTrue e.wasTrue (·.wasTrue) (by simp [BitHistory.masks])
    obtain ⟨f, hf⟩ := own .valueFalse e.wasFalse (·.wasFalse) (by simp [BitHistory.masks])
    exact ⟨t ++ f, by simp only [ht, hf]; rfl⟩

/-- The points of a node can be told just when those that it is scored on can: its own, or those of
the chain whose root it is. -/
theorem Forest.scorable_iff (hf : db.Forest) (h : db.expr? id = some e) :
    db.Scorable cfg id ↔ ((db.place id).isScored e cfg = true → db.isSubsumed id = .ok false →
      (db.chainRole id cfg = .ok (some .root) →
        ∃ points, db.chainPoints id cfg (db.muted id) = .ok points) ∧
      (db.chainRole id cfg ≠ .ok (some .root) → db.chainRole id cfg ≠ .ok (some .interior) →
        ∃ points, db.singlePoints id cfg (db.muted id) = .ok points)) := by
  obtain ⟨subsumed, hsubsumed⟩ := hf.exists_isSubsumed h
  obtain ⟨role, hrole⟩ := hf.exists_chainRole h cfg
  rw [Scorable, hf.scoredPoints_eq h, pointsAt]
  change (∃ points, (if (db.place id).isScored e cfg then db.nodePoints id cfg (db.muted id)
    else .ok none) = .ok points) ↔ _
  rw [nodePoints, hsubsumed, hrole]
  cases (db.place id).isScored e cfg with
  | false => simp
  | true =>
    cases subsumed with
    | true => simp [bind, Except.bind]
    | false =>
      rcases role with _ | (_ | _ | _)
      · cases db.singlePoints id cfg (db.muted id) <;> simp [bind, Except.bind, pure, Except.pure]
      · cases db.chainPoints id cfg (db.muted id) <;> simp [bind, Except.bind, pure, Except.pure]
      · simp [bind, Except.bind]
      · cases db.singlePoints id cfg (db.muted id) <;> simp [bind, Except.bind, pure, Except.pure]

namespace Recorded

variable (hd : db.Recorded)

include hd

/-- The points of a node that stands alone come about. -/
theorem exists_singlePoints (hf : db.Forest) (h : db.expr? id = some e) (cfg : ScoringConfig)
    (excluded : Bool) : ∃ points, db.singlePoints id cfg excluded = .ok points := by
  refine exists_singlePoints_of h excluded ?_ ?_ (hd.supplied e (Array.mem_of_getElem? h)).1
  · intro kind scalar pick hpick
    exact hd.exists_ownPoints h cfg hpick scalar kind id excluded
  · intro c hc kind scalar pick hpick
    obtain ⟨ec, hec, -⟩ := hf.child h hc
    exact hd.exists_inputPoints hec hpick scalar kind id excluded _

variable (hf : db.Forest)

include hf

/-- The operands of a gate can be listed. -/
theorem exists_chainOperands (h : db.expr? id = some e) (hgate : e.category.isGate = true) :
    ∃ operands, db.chainOperands id = .ok operands := by
  have hw : db.Wired id := fun x _ ex hex hgate =>
    (hd.supplied ex (Array.mem_of_getElem? hex)).1 (Category.isPaired_of_isGate hgate)
  obtain ⟨operands, hoperands, -⟩ :=
    hf.exists_operands h hgate (hf.wiredChain_of_wired h hgate hw)
  exact ⟨operands, hoperands⟩

/-- The points of an operand come about. -/
theorem exists_operandPoints {root : ExprId} (ho : TransGen db.Under id root) (isAnd : Bool)
    (width : Option UInt32) :
    ∃ points, db.operandPoints root isAnd (db.muted root) width id = .ok points := by
  obtain ⟨_, ⟨e, he, -⟩, -⟩ := TransGen.head'_iff.mp ho
  have side (excluded : Bool) : ∃ points, (if isAnd
      then db.inputPoints id id .operandFalse (·.wasFalse) (·.wasFalse) excluded width
      else db.inputPoints id id .operandTrue (·.wasTrue) (·.wasTrue) excluded width) =
        .ok points := by
    split
    · exact hd.exists_inputPoints he (by simp [BitHistory.masks]) _ _ _ _ _
    · exact hd.exists_inputPoints he (by simp [BitHistory.masks]) _ _ _ _ _
  rw [operandPoints]
  cases hm : db.muted root with
  | true => exact side true
  | false =>
    rw [if_neg Bool.false_ne_true, hf.excludedWithin_eq ho hm]
    exact side (db.muted id)

/-- The points of a chain come about. -/
theorem exists_chainPoints (h : db.expr? id = some e) (hgate : e.category.isGate = true)
    (cfg : ScoringConfig) : ∃ points, db.chainPoints id cfg (db.muted id) = .ok points := by
  obtain ⟨operands, hoperands⟩ := hd.exists_chainOperands hf h hgate
  obtain ⟨each, heach, -⟩ := exists_mapM_ok (R := fun _ _ => True) fun o ho => by
    obtain ⟨points, hpoints⟩ := hd.exists_operandPoints hf
      (hf.under_of_chainOperands h hoperands o ho) (e.category = .andGate) (e.bitwiseWidth cfg)
    exact ⟨points, hpoints, trivial⟩
  have own (kind : PointKind) (scalar : Bool) (pick : BitHistory → BitMask)
      (hpick : ∀ history, pick history ∈ history.masks) :
      ∃ points, (Evidence.own id e scalar pick).points kind id (db.muted id)
        (e.bitwiseWidth cfg) = .ok points :=
    hd.exists_ownPoints h cfg hpick scalar kind id (db.muted id)
  rw [chainPoints, db.expr_eq_ok_iff.mpr h]
  simp only [bind, Except.bind, hoperands, heach]
  split
  · obtain ⟨all, hall⟩ := own .allTrue e.eval11 (·.eval11) (by simp [BitHistory.masks])
    exact ⟨each.flatten ++ all, by rw [hall]; rfl⟩
  · obtain ⟨all, hall⟩ := own .allFalse e.eval00 (·.eval00) (by simp [BitHistory.masks])
    exact ⟨each.flatten ++ all, by rw [hall]; rfl⟩

/-- Where nothing is lacking, the points of every node can be told. -/
theorem scorable (h : db.expr? id = some e) (cfg : ScoringConfig) : db.Scorable cfg id :=
  (hf.scorable_iff h).mpr fun _ _ =>
    ⟨fun hrole => hd.exists_chainPoints hf h (Forest.isGate_of_chainRole h hrole) cfg,
      fun _ _ => hd.exists_singlePoints hf h cfg (db.muted id)⟩

end Recorded

end Database

end LogicCoverage
