import LogicCoverage.Point
import Mathlib.Data.List.Nodup

/-!
# The keys of points

A point is told apart by its site, its kind and its bit. A node scored on its own has one point for
each kind of its category and each bit; a chain has one for each operand and bit, and one for all of
them together and each bit.
-/

namespace LogicCoverage

/-- The results of a computation over a list, seen through what they are known to show. -/
theorem map_of_mapM {ε α β γ : Type} {l : List α} {f : α → Except ε β} {r : List β} {g : β → γ}
    {k : α → γ} (hl : ∀ a ∈ l, ∀ b, f a = .ok b → g b = k a) (h : l.mapM f = .ok r) :
    r.map g = l.map k := by
  induction l generalizing r with
  | nil =>
    cases h
    rfl
  | cons a l ih =>
    rw [List.forall_mem_cons] at hl
    rw [List.mapM_cons] at h
    obtain ⟨b, hb, h⟩ := bind_eq_ok_iff.mp h
    obtain ⟨r', hr', h⟩ := bind_eq_ok_iff.mp h
    cases h
    rw [List.map_cons, List.map_cons, hl.1 b hb, ih hl.2 hr']

/-! ## Keys -/

/-- What tells a point apart. -/
def Point.key (p : Point) : ExprId × PointKind × Option UInt32 := (p.site, p.kind, p.bit)

/-- The points of an operand of a chain. -/
def PointKind.isOperand : PointKind → Bool
  | operandFalse | operandTrue => true
  | _ => false

/-- The bits of a scored width, or no bit at all. -/
def bitsOf : Option UInt32 → List (Option UInt32)
  | none => [none]
  | some width => (List.range width.toNat).map fun n => some (UInt32.ofNat n)

/-- A width lists each of its bits once. -/
theorem nodup_bitsOf (width : Option UInt32) : (bitsOf width).Nodup := by
  cases width with
  | none => exact List.nodup_singleton none
  | some width =>
    refine (List.nodup_map_iff_inj_on List.nodup_range).mpr fun m hm n hn heq => ?_
    have hsize := width.toNat_lt_size
    rw [List.mem_range] at hm hn
    have hnat := congrArg UInt32.toNat (Option.some.inj heq)
    rwa [UInt32.toNat_ofNat_of_lt' (by omega), UInt32.toNat_ofNat_of_lt' (by omega)] at hnat

/-- The keys of one kind of points at one site. -/
def keysAt (site : ExprId) (width : Option UInt32) (kind : PointKind) :
    List (ExprId × PointKind × Option UInt32) :=
  (bitsOf width).map fun bit => (site, kind, bit)

/-- All keys of a site and kind name that site and kind. -/
theorem mem_keysAt {site : ExprId} {width : Option UInt32} {kind : PointKind}
    {key : ExprId × PointKind × Option UInt32} (h : key ∈ keysAt site width kind) :
    key.1 = site ∧ key.2.1 = kind := by
  obtain ⟨bit, -, rfl⟩ := List.mem_map.mp h
  exact ⟨rfl, rfl⟩

theorem nodup_keysAt (site : ExprId) (width : Option UInt32) (kind : PointKind) :
    (keysAt site width kind).Nodup :=
  (nodup_bitsOf width).map fun _ _ h => congrArg (·.2.2) h

/-- Another site or another kind has other keys. -/
theorem disjoint_keysAt {site site' : ExprId} {kind kind' : PointKind} (width : Option UInt32)
    (hne : site ≠ site' ∨ kind ≠ kind') :
    List.Disjoint (keysAt site width kind) (keysAt site' width kind') := by
  intro key hkey hkey'
  obtain ⟨hsite, hkind⟩ := mem_keysAt hkey
  obtain ⟨hsite', hkind'⟩ := mem_keysAt hkey'
  rcases hne with hne | hne
  · exact hne (hsite.symm.trans hsite')
  · exact hne (hkind.symm.trans hkind')

/-- Evidence expands to one kind of points at one site. -/
theorem Evidence.map_key_points {ev : Evidence} {kind : PointKind} {site : ExprId}
    {excluded : Bool} {width : Option UInt32} {points : List Point}
    (h : ev.points kind site excluded width = .ok points) :
    points.map Point.key = keysAt site width kind := by
  cases width with
  | none =>
    cases h
    rfl
  | some width =>
    rw [Evidence.points, Checked.tabulate_eq_mapM] at h
    rw [keysAt, bitsOf, List.map_map]
    refine map_of_mapM (fun n _ p hp => ?_) h
    obtain ⟨hit, -, hp⟩ := bind_eq_ok_iff.mp hp
    cases hp
    rfl

/-! ## Kinds -/

/-- The kinds of points of a node scored on its own. -/
def Category.kinds : Category → List PointKind
  | andGate => [.leftFalse, .rightFalse, .bothTrue]
  | orGate => [.leftTrue, .rightTrue, .bothFalse]
  | comparison => [.joint false false, .joint false true, .joint true false, .joint true true]
  | event => [.eventFired]
  | value | constant | control => [.valueTrue, .valueFalse]

/-- No kind is scored twice at one node. -/
theorem Category.nodup_kinds (c : Category) : c.kinds.Nodup := by cases c <;> decide

/-- Nodes that stand alone have no points of operands. -/
theorem Category.not_isOperand_of_mem_kinds {c : Category} :
    ∀ kind ∈ c.kinds, kind.isOperand = false := by cases c <;> decide

/-- The kind of an operand's points in a chain of a category. -/
def Category.operandKind (c : Category) : PointKind :=
  if c = andGate then .operandFalse else .operandTrue

/-- The kind of the points of all operands together. -/
def Category.wholeKind (c : Category) : PointKind := if c = andGate then .allTrue else .allFalse

theorem Category.isOperand_operandKind (c : Category) : c.operandKind.isOperand = true := by
  cases c <;> rfl

theorem Category.isOperand_wholeKind (c : Category) : c.wholeKind.isOperand = false := by
  cases c <;> rfl

namespace Database

variable {db : Database} {cfg : ScoringConfig} {id root : ExprId} {e : Expression}

/-! ## Nodes scored on their own -/

/-- The points of a node have the keys of its site and kind. -/
theorem map_key_inputPoints {site operand : ExprId} {kind : PointKind} {scalar : Expression → Bool}
    {pick : BitHistory → BitMask} {excluded : Bool} {width : Option UInt32} {points : List Point}
    (h : db.inputPoints site operand kind scalar pick excluded width = .ok points) :
    points.map Point.key = keysAt site width kind := by
  obtain ⟨_, -, h⟩ := bind_eq_ok_iff.mp h
  exact Evidence.map_key_points h

/-- A node scored on its own has points of every kind of its category. -/
theorem map_key_singlePoints (he : db.expr? id = some e) {excluded : Bool} {points : List Point}
    (h : db.singlePoints id cfg excluded = .ok points) :
    points.map Point.key = e.category.kinds.flatMap (keysAt id (e.bitwiseWidth cfg)) := by
  obtain ⟨e', he', h⟩ := bind_eq_ok_iff.mp h
  cases he.symm.trans (db.expr_eq_ok_iff.mp he')
  cases hcat : e.category with
  | andGate | orGate =>
    simp only [hcat] at h
    obtain ⟨⟨left, right⟩, -, h⟩ := bind_eq_ok_iff.mp h
    obtain ⟨l, hl, h⟩ := bind_eq_ok_iff.mp h
    obtain ⟨r, hr, h⟩ := bind_eq_ok_iff.mp h
    obtain ⟨both, hboth, h⟩ := bind_eq_ok_iff.mp h
    cases h
    simp [Category.kinds, map_key_inputPoints hl, map_key_inputPoints hr,
      Evidence.map_key_points hboth]
  | comparison =>
    simp only [hcat] at h
    obtain ⟨_, -, h⟩ := bind_eq_ok_iff.mp h
    obtain ⟨p00, h00, h⟩ := bind_eq_ok_iff.mp h
    obtain ⟨p01, h01, h⟩ := bind_eq_ok_iff.mp h
    obtain ⟨p10, h10, h⟩ := bind_eq_ok_iff.mp h
    obtain ⟨p11, h11, h⟩ := bind_eq_ok_iff.mp h
    cases h
    simp [Category.kinds, Evidence.map_key_points h00, Evidence.map_key_points h01,
      Evidence.map_key_points h10, Evidence.map_key_points h11]
  | event =>
    simp only [hcat] at h
    simp [Category.kinds, Evidence.map_key_points h]
  | value | constant | control =>
    simp only [hcat] at h
    obtain ⟨t, ht, h⟩ := bind_eq_ok_iff.mp h
    obtain ⟨f, hf, h⟩ := bind_eq_ok_iff.mp h
    cases h
    simp [Category.kinds, Evidence.map_key_points ht, Evidence.map_key_points hf]

/-! ## Chains -/

/-- The points of an operand have the keys of its site and kind. -/
theorem map_key_operandPoints {c : Category} {o : ExprId} {excluded : Bool} {width : Option UInt32}
    {points : List Point}
    (h : db.operandPoints root (c = .andGate) excluded width o = .ok points) :
    points.map Point.key = keysAt o width c.operandKind := by
  have side {excluded : Bool} (h : (if (decide (c = .andGate)) = true
      then db.inputPoints o o .operandFalse (·.wasFalse) (·.wasFalse) excluded width
      else db.inputPoints o o .operandTrue (·.wasTrue) (·.wasTrue) excluded width) = .ok points) :
      points.map Point.key = keysAt o width c.operandKind := by
    rw [Category.operandKind]
    by_cases hc : c = .andGate
    · rw [if_pos hc]
      rw [if_pos (decide_eq_true hc)] at h
      exact map_key_inputPoints h
    · rw [if_neg hc]
      rw [if_neg (by simpa using hc)] at h
      exact map_key_inputPoints h
  rw [operandPoints] at h
  cases excluded with
  | true => exact side h
  | false =>
    rw [if_neg Bool.false_ne_true] at h
    obtain ⟨within, -, h⟩ := bind_eq_ok_iff.mp h
    exact side h

/-- A chain has the points of its operands, and those of all of them together. -/
theorem map_key_chainPoints (he : db.expr? root = some e) {operands : List ExprId}
    (hops : db.chainOperands root = .ok operands) {excluded : Bool} {points : List Point}
    (h : db.chainPoints root cfg excluded = .ok points) :
    points.map Point.key =
      (operands.flatMap fun o => keysAt o (e.bitwiseWidth cfg) e.category.operandKind) ++
        keysAt root (e.bitwiseWidth cfg) e.category.wholeKind := by
  obtain ⟨e', he', h⟩ := bind_eq_ok_iff.mp h
  cases he.symm.trans (db.expr_eq_ok_iff.mp he')
  obtain ⟨operands', hops', h⟩ := bind_eq_ok_iff.mp h
  cases hops.symm.trans hops'
  obtain ⟨each, heach, h⟩ := bind_eq_ok_iff.mp h
  have hflat : each.flatten.map Point.key =
      operands.flatMap fun o => keysAt o (e.bitwiseWidth cfg) e.category.operandKind := by
    rw [List.map_flatten, List.flatMap_def]
    exact congrArg List.flatten (map_of_mapM (fun o _ l hl => map_key_operandPoints hl) heach)
  rw [← hflat, Category.wholeKind]
  by_cases hc : e.category = .andGate
  · simp only [hc, decide_true, if_true] at h ⊢
    obtain ⟨all, hall, h⟩ := bind_eq_ok_iff.mp h
    cases h
    rw [List.map_append, Evidence.map_key_points hall]
  · simp only [hc, decide_false, if_false, Bool.false_eq_true] at h ⊢
    obtain ⟨all, hall, h⟩ := bind_eq_ok_iff.mp h
    cases h
    rw [List.map_append, Evidence.map_key_points hall]

end Database

end LogicCoverage
