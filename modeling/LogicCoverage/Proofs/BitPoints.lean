import LogicCoverage.Proofs.Evidence

/-!
# Points bit by bit

Under a bitwise configuration, a wide node has one point for each bit where it has one point
otherwise, and each of them looks at its bit: of the node itself, or of the operand that the point is
about, as far as the operand has that bit. All else is the same. Nodes of one bit have the same
points under both configurations.
-/

namespace LogicCoverage

/-! ## Reading a mask -/

/-- What a mask holds at a position: nothing at or beyond its width, and else a bit of a word. -/
def BitMask.Reads (m : BitMask) (bit : UInt32) (value : Bool) : Prop :=
  if m.width ≤ bit then value = false
  else ∃ word, m.words[bit.toNat / 64]? = some word ∧
    value = word.toBitVec.getLsbD (bit.toNat % 64)

/-- What is got from a mask is what it reads. -/
theorem BitMask.reads_of_get {m : BitMask} {bit : UInt32} {value : Bool}
    (h : m.get bit = .ok value) : m.Reads bit value := by
  rw [get] at h
  rw [Reads]
  split at h <;> rename_i hbit
  · rw [if_pos hbit]
    exact (Except.ok.inj h).symm
  · rw [if_neg hbit]
    split at h <;> cases h
    rename_i word hword
    exact ⟨word, hword, rfl⟩

/-! ## One kind -/

namespace Database

/-- What points of a kind see at one bit of the scored node `e`. An operand is looked at as a whole
where it has no such bit, or just one. -/
inductive Shows (db : Database) (e : Expression) (kind : PointKind) (site : ExprId) (bit : UInt32) :
    Bool → Prop
  | bit {o : ExprId} {eo : Expression} {history : BitHistory} {hit : Bool} :
    e.operandOf site kind = some o → db.expr? o = some eo → 1 < eo.width → bit < eo.width →
      eo.history = some history → (kind.observation.mask history).Reads bit hit →
      Shows db e kind site bit hit
  | whole {o : ExprId} {eo : Expression} : e.operandOf site kind = some o → db.expr? o = some eo →
      ¬ (1 < eo.width ∧ bit < eo.width) → Shows db e kind site bit (kind.observation.flag eo)
  | own {history : BitHistory} {hit : Bool} : e.operandOf site kind = none →
      e.history = some history → (kind.observation.mask history).Reads bit hit →
      Shows db e kind site bit hit

/-- The points of the bits of a wide node, in place of one point. -/
def Refines (db : Database) (e : Expression) (p : Point) (bits : List Point) : Prop :=
  ∃ hit : UInt32 → Bool, (∀ b < e.width, db.Shows e p.kind p.site b (hit b)) ∧
    bits = (List.range e.width.toNat).map fun n =>
      { p with hit := hit (UInt32.ofNat n), bit := some (UInt32.ofNat n) }

/-- Each point is replaced by those of its bits, in order. -/
def AllRefine (db : Database) (e : Expression) (bits points : List Point) : Prop :=
  ∃ groups, List.Forall₂ (db.Refines e) points groups ∧ bits = groups.flatten

variable {db : Database} {e : Expression} {id site : ExprId} {kind : PointKind}

/-- A point is refined by as many bits as the node is wide. -/
theorem Refines.length {p : Point} {bits : List Point} (h : db.Refines e p bits) :
    bits.length = e.width.toNat := by
  obtain ⟨hit, -, rfl⟩ := h
  rw [List.length_map, List.length_range]

namespace AllRefine

theorem nil : db.AllRefine e [] [] := ⟨[], .nil, rfl⟩

/-- Lists are refined part by part. -/
theorem append {bits bits' points points' : List Point} (h : db.AllRefine e bits points)
    (h' : db.AllRefine e bits' points') : db.AllRefine e (bits ++ bits') (points ++ points') := by
  obtain ⟨groups, hall, rfl⟩ := h
  obtain ⟨groups', hall', rfl⟩ := h'
  exact ⟨groups ++ groups', List.rel_append hall hall', List.flatten_append.symm⟩

/-- Each point is refined by as many bits as the node is wide. -/
theorem length {bits points : List Point} (h : db.AllRefine e bits points) :
    bits.length = e.width.toNat * points.length := by
  obtain ⟨groups, hall, rfl⟩ := h
  induction hall with
  | nil => rfl
  | cons hp _ ih =>
    rw [List.flatten_cons, List.length_append, hp.length, ih, List.length_cons, Nat.mul_succ,
      Nat.add_comm]

end AllRefine

end Database

/-- Evidence that shows what points of a kind see at each bit. -/
theorem Evidence.yields_refine {db : Database} {e : Expression} {ev : Evidence} {kind : PointKind}
    {site : ExprId} (hshows : ∀ b hit, b < e.width → ev.bit b = .ok hit → db.Shows e kind site b hit)
    (excluded : Bool) :
    Checked.Yields (db.AllRefine e) (ev.points kind site excluded (some e.width))
      (ev.points kind site excluded none) := by
  intro bits hbits
  rw [points, Checked.tabulate_eq_mapM] at hbits
  have hread {b : UInt32} (hb : b < e.width) : ev.bit b = .ok (Checked.getD (ev.bit b) false) := by
    obtain ⟨p, hp⟩ := exists_of_mapM_ok hbits b.toNat (List.mem_range.mpr hb)
    obtain ⟨hit, hhit, -⟩ := bind_eq_ok_iff.mp hp
    rw [UInt32.ofNat_toNat] at hhit
    rw [hhit, Checked.getD]
  have hgroup : bits.map id = (List.range e.width.toNat).map fun n =>
      ⟨kind, Checked.getD (ev.bit (UInt32.ofNat n)) false, excluded, some (UInt32.ofNat n), site⟩ := by
    refine map_of_mapM (fun n _ p hp => ?_) hbits
    obtain ⟨hit, hhit, hp⟩ := bind_eq_ok_iff.mp hp
    cases hp
    rw [hhit, Checked.getD]
    rfl
  rw [List.map_id] at hgroup
  refine ⟨_, rfl, [bits], .cons ⟨fun b => Checked.getD (ev.bit b) false, ?_, hgroup⟩ .nil, ?_⟩
  · exact fun b hb => hshows b _ hb (hread hb)
  · rw [List.flatten_cons, List.flatten_nil, List.append_nil]

namespace Database

variable {db : Database} {e : Expression} {id site : ExprId} {kind : PointKind}
  {cfg : ScoringConfig}

/-- Where a history is required and found, it is that of the node. -/
theorem exists_history {history : BitHistory} (h : e.requireHistory id = .ok history) :
    e.history = some history := by
  rw [Expression.requireHistory] at h
  split at h <;> cases h
  assumption

/-- The points of a kind for a wide node, with and without bits. -/
theorem pointsOf_refine (hbits : cfg.bitwise = true) (hwide : 1 < e.width) (kind : PointKind)
    (site : ExprId) (excluded : Bool) :
    Checked.Yields (db.AllRefine e) (db.pointsOf cfg id e kind site excluded)
      (db.pointsOf { cfg with bitwise := false } id e kind site excluded) := by
  have hwidth : e.bitwiseWidth cfg = some e.width := by
    rw [Expression.bitwiseWidth, hbits, decide_eq_true hwide]
    rfl
  have hnone : e.bitwiseWidth { cfg with bitwise := false } = none := rfl
  rw [pointsOf, pointsOf, hwidth, hnone]
  cases ho : e.operandOf site kind with
  | none =>
    refine Evidence.yields_refine (fun b hit _ hhit => ?_) excluded
    obtain ⟨history, hhistory, hget⟩ := bind_eq_ok_iff.mp hhit
    exact .own ho (exists_history hhistory) (BitMask.reads_of_get hget)
  | some o =>
    refine Checked.Yields.bind_right _ fun eo heo => ?_
    rw [db.expr_eq_ok_iff] at heo
    refine Evidence.yields_refine (fun b hit _ hhit => ?_) excluded
    rw [Evidence.ofKind, if_pos rfl, Evidence.operand] at hhit
    dsimp only at hhit
    split at hhit <;> rename_i hwithin
    · obtain ⟨history, hhistory, hget⟩ := bind_eq_ok_iff.mp hhit
      exact .bit ho heo hwithin.1 hwithin.2 (exists_history hhistory) (BitMask.reads_of_get hget)
    · cases hhit
      exact .whole ho heo hwithin

/-- The points of a kind for a node of one bit. -/
theorem pointsOf_narrow (hnarrow : ¬ 1 < e.width) (kind : PointKind) (site : ExprId)
    (excluded : Bool) :
    Checked.Yields Eq (db.pointsOf cfg id e kind site excluded)
      (db.pointsOf { cfg with bitwise := false } id e kind site excluded) := by
  have hnone : e.bitwiseWidth cfg = e.bitwiseWidth { cfg with bitwise := false } := by
    rw [Expression.bitwiseWidth, decide_eq_false hnarrow, Bool.and_false]
    rfl
  rw [pointsOf, pointsOf, hnone]
  exact .refl _

/-! ## All points of a node -/

/-- Bitwise points refine the points of whole values: a node of one bit has the same points, and in
place of each point of a wide node there are those of its bits. -/
theorem nodePoints_bitwise (hbits : cfg.bitwise = true) {excluded : Bool} {points : List Point}
    (hpoints : db.nodePoints id cfg excluded = .ok (some points)) :
    ∃ e scalars, db.expr? id = some e ∧
      db.nodePoints id { cfg with bitwise := false } excluded = .ok (some scalars) ∧
      (¬ 1 < e.width → points = scalars) ∧
      (1 < e.width → ∃ groups, List.Forall₂ (db.Refines e) scalars groups ∧
        points = groups.flatten) ∧
      points.length = (if 1 < e.width then e.width.toNat else 1) * scalars.length := by
  obtain ⟨e, he⟩ : ∃ e, db.expr? id = some e := by
    obtain ⟨_, hsubsumed, -⟩ := bind_eq_ok_iff.mp hpoints
    obtain ⟨e, he, -⟩ := bind_eq_ok_iff.mp hsubsumed
    exact ⟨e, db.expr_eq_ok_iff.mp he⟩
  have same : db.SameShape db := .of_exprs rfl
  by_cases hwide : 1 < e.width
  · obtain ⟨o, hscalars, hrefine⟩ := nodePoints_yields (pointsOf_refine hbits hwide) he he (.refl e)
      AllRefine.append same rfl .nil rfl excluded _ hpoints
    cases hrefine with
    | @some _ scalars hrefine =>
      refine ⟨e, scalars, he, hscalars, fun hnarrow => absurd hwide hnarrow, fun _ => hrefine, ?_⟩
      rw [if_pos hwide, hrefine.length]
  · obtain ⟨o, hscalars, hequal⟩ := nodePoints_yields (R := Eq) (pointsOf_narrow hwide) he he
      (.refl e) (fun h h' => h ▸ h' ▸ rfl) same rfl rfl rfl excluded _ hpoints
    cases hequal with
    | @some _ scalars hequal =>
      refine ⟨e, scalars, he, hscalars, fun _ => hequal, fun h => absurd h hwide, ?_⟩
      rw [if_neg hwide, Nat.one_mul, hequal]

/-- A gate of three bits over an input of one bit and an input of two bits, of which the recorded mask
has one. -/
def unevenGate : Database where
  exprs := #[
    { Expression.new .signal 1 7 with parent := .expr ⟨2⟩, wasFalse := true },
    { Expression.new .signal 2 7 with
      parent := .expr ⟨2⟩, wasFalse := true,
      history := some ⟨.zeros 2, .ones 1, .zeros 2, .zeros 2, .zeros 2, .zeros 2⟩ },
    { Expression.new .bitAnd 3 7 with
      left := some ⟨0⟩, right := some ⟨1⟩, parent := .stmt ⟨0⟩, eval11 := true,
      history := some ⟨.zeros 3, .zeros 3, .zeros 3, .zeros 3, .zeros 3, ⟨3, #[5]⟩⟩ }]
  stmts := #[⟨⟨2⟩, false⟩]
  scopes := #[⟨"top", .moduleScope, [⟨0⟩], [], .zero⟩]

/-- The middle bit of the second input is beyond its mask and reads false, and the last one is beyond
the input, which is looked at as a whole. -/
theorem nodePoints_bitwise_unevenGate :
    unevenGate.nodePoints ⟨2⟩ ⟨true, true, none⟩ false = .ok (some [
        ⟨.leftFalse, true, false, some 0, ⟨2⟩⟩, ⟨.leftFalse, true, false, some 1, ⟨2⟩⟩,
        ⟨.leftFalse, true, false, some 2, ⟨2⟩⟩, ⟨.rightFalse, true, false, some 0, ⟨2⟩⟩,
        ⟨.rightFalse, false, false, some 1, ⟨2⟩⟩, ⟨.rightFalse, true, false, some 2, ⟨2⟩⟩,
        ⟨.bothTrue, true, false, some 0, ⟨2⟩⟩, ⟨.bothTrue, false, false, some 1, ⟨2⟩⟩,
        ⟨.bothTrue, true, false, some 2, ⟨2⟩⟩]) ∧
      ∃ e scalars, unevenGate.expr? ⟨2⟩ = some e ∧ 1 < e.width ∧
        unevenGate.nodePoints ⟨2⟩ ⟨true, false, none⟩ false = .ok (some scalars) ∧
        ∃ groups, List.Forall₂ (unevenGate.Refines e) scalars groups ∧ groups.flatten.length = 9 := by
  have hpoints : unevenGate.nodePoints ⟨2⟩ ⟨true, true, none⟩ false = .ok (some [
      ⟨.leftFalse, true, false, some 0, ⟨2⟩⟩, ⟨.leftFalse, true, false, some 1, ⟨2⟩⟩,
      ⟨.leftFalse, true, false, some 2, ⟨2⟩⟩, ⟨.rightFalse, true, false, some 0, ⟨2⟩⟩,
      ⟨.rightFalse, false, false, some 1, ⟨2⟩⟩, ⟨.rightFalse, true, false, some 2, ⟨2⟩⟩,
      ⟨.bothTrue, true, false, some 0, ⟨2⟩⟩, ⟨.bothTrue, false, false, some 1, ⟨2⟩⟩,
      ⟨.bothTrue, true, false, some 2, ⟨2⟩⟩]) := by decide
  obtain ⟨e, scalars, he, hscalars, -, hrefine, -⟩ := nodePoints_bitwise rfl hpoints
  have hwide : 1 < e.width := by
    cases he
    decide
  obtain ⟨groups, hall, hflatten⟩ := hrefine hwide
  exact ⟨hpoints, e, scalars, he, hwide, hscalars, groups, hall, by rw [← hflatten]; rfl⟩

end Database

end LogicCoverage
