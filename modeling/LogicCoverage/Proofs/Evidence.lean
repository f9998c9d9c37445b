import LogicCoverage.Proofs.Points

/-!
# The evidence of points

What a point rests on is settled by its kind: one of the things that are recorded of every node, and
the node whose record counts. The points of a node are those of its kinds, one after the other. So
what is known of the points of every single kind, in two databases of one shape or under two
configurations, is known of all points of a node; the case distinction by categories is made here,
once.
-/

namespace LogicCoverage

/-! ## Related results -/

namespace Checked

/-- Where the first computation has a result, the second one has a result that is related to it. -/
def Yields {α β : Type} (R : α → β → Prop) (x : Checked α) (y : Checked β) : Prop :=
  ∀ a, x = .ok a → ∃ b, y = .ok b ∧ R a b

namespace Yields

variable {α β γ δ : Type} {R : α → β → Prop} {S : γ → δ → Prop} {x : Checked α} {y : Checked β}

theorem ok {a : α} {b : β} (h : R a b) : Yields R (.ok a) (.ok b) := by
  rintro _ ⟨⟩
  exact ⟨b, rfl, h⟩

theorem refl (x : Checked α) : Yields Eq x x := fun a h => ⟨a, h, rfl⟩

/-- Where the starts yield, and what comes next does so from related results. -/
theorem bind {f : α → Checked γ} {g : β → Checked δ} (h : Yields R x y)
    (hfg : ∀ a b, R a b → Yields S (f a) (g b)) : Yields S (x >>= f) (y >>= g) := by
  intro c hc
  obtain ⟨a, ha, hc⟩ := bind_eq_ok_iff.mp hc
  obtain ⟨b, hb, hab⟩ := h a ha
  obtain ⟨d, hd, hcd⟩ := hfg a b hab c hc
  exact ⟨d, bind_eq_ok_iff.mpr ⟨b, hb, hd⟩, hcd⟩

/-- Where both start in the same way. -/
theorem bind_right {f : α → Checked γ} {g : α → Checked δ} (x : Checked α)
    (hfg : ∀ a, x = .ok a → Yields S (f a) (g a)) : Yields S (x >>= f) (x >>= g) := by
  intro c hc
  obtain ⟨a, ha, hc⟩ := bind_eq_ok_iff.mp hc
  obtain ⟨d, hd, hcd⟩ := hfg a ha c hc
  exact ⟨d, bind_eq_ok_iff.mpr ⟨a, ha, hd⟩, hcd⟩

/-- Item by item, a list of results yields a list of related results. -/
theorem mapM {l : List γ} {f : γ → Checked α} {g : γ → Checked β}
    (h : ∀ c ∈ l, Yields R (f c) (g c)) : Yields (List.Forall₂ R) (l.mapM f) (l.mapM g) := by
  induction l with
  | nil => exact ok .nil
  | cons c l ih =>
    rw [List.forall_mem_cons] at h
    rw [List.mapM_cons, List.mapM_cons]
    refine h.1.bind fun a b hab => ?_
    refine (ih h.2).bind fun as bs hrest => ?_
    exact ok (.cons hab hrest)

end Yields

end Checked

/-! ## What is recorded -/

/-- What the simulation records of every node, as a whole and bit by bit. -/
inductive Observation where
  | wasTrue
  | wasFalse
  /-- The inputs had these values together. -/
  | joint (left right : Bool)

namespace Observation

/-- What was seen of the node as a whole. -/
def flag : Observation → Expression → Bool
  | wasTrue, e => e.wasTrue
  | wasFalse, e => e.wasFalse
  | joint false false, e => e.eval00
  | joint false true, e => e.eval01
  | joint true false, e => e.eval10
  | joint true true, e => e.eval11

/-- What was seen of each bit. -/
def mask : Observation → BitHistory → BitMask
  | wasTrue, h => h.wasTrue
  | wasFalse, h => h.wasFalse
  | joint false false, h => h.eval00
  | joint false true, h => h.eval01
  | joint true false, h => h.eval10
  | joint true true, h => h.eval11

end Observation

/-- What points of a kind look at. -/
def PointKind.observation : PointKind → Observation
  | leftFalse | rightFalse | operandFalse | valueFalse => .wasFalse
  | leftTrue | rightTrue | operandTrue | valueTrue | eventFired => .wasTrue
  | bothTrue | allTrue => .joint true true
  | bothFalse | allFalse => .joint false false
  | joint left right => .joint left right

/-- The operand that points of a kind are about, if they are about one: an input of a gate that is
scored on its own, or an operand of a chain, which is the site of its points. -/
def Expression.operandOf (e : Expression) (site : ExprId) : PointKind → Option ExprId
  | .leftFalse | .leftTrue => e.left
  | .rightFalse | .rightTrue => e.right
  | .operandFalse | .operandTrue => some site
  | _ => none

/-- The evidence for points of a kind, at the node they are about. -/
def Evidence.ofKind (id : ExprId) (e : Expression) (isOperand : Bool) (kind : PointKind) :
    Evidence :=
  if isOperand then .operand id e (kind.observation.flag e) kind.observation.mask
  else .own id e (kind.observation.flag e) kind.observation.mask

namespace Database

/-- The points of one kind at one site, for the scored node `id`. -/
def pointsOf (db : Database) (cfg : ScoringConfig) (id : ExprId) (e : Expression) (kind : PointKind)
    (site : ExprId) (excluded : Bool) : Checked (List Point) :=
  match e.operandOf site kind with
  | some o => do
    let eo ← db.expr o
    (Evidence.ofKind o eo true kind).points kind site excluded (e.bitwiseWidth cfg)
  | none => (Evidence.ofKind id e false kind).points kind site excluded (e.bitwiseWidth cfg)

/-! ## From the points of every kind to those of a node -/

variable {db db' : Database}

/-- The same nodes are excluded. -/
theorem excluded_eq_of_flagged {id : ExprId} {e e' : Expression}
    (hflag : db'.flagged = db.flagged) (he : db.expr? id = some e) (he' : db'.expr? id = some e') :
    e'.excluded = e.excluded := by
  have hid := congrFun hflag id
  rw [flagged, flagged, he, he'] at hid
  exact hid

namespace SameShape

variable (h : db.SameShape db') (hflag : db'.flagged = db.flagged)

include h hflag

/-- Flags are found on the way up where they were. -/
theorem any_upTo_climb (root : ExprId) (fuel : Nat) (link : Link) :
    ((db'.climb fuel link).upTo root).any (fun _ node => node.excluded) =
      ((db.climb fuel link).upTo root).any fun _ node => node.excluded := by
  induction fuel generalizing link with
  | zero => cases link <;> simp [climb, Lineage.upTo, Lineage.any]
  | succ fuel ih =>
    cases link with
    | detached => simp [climb]
    | stmt s => simp [climb]
    | expr p =>
      rcases h.expr p with ⟨fault, he, he'⟩ | ⟨e, e', he, he', hsame⟩
      · simp only [climb, he, he', Lineage.upTo, Lineage.any]
      · have hexcluded : e'.excluded = e.excluded :=
          excluded_eq_of_flagged hflag (db.expr_eq_ok_iff.mp he) (db'.expr_eq_ok_iff.mp he')
        simp only [climb, he, he', Lineage.upTo]
        split
        · rfl
        · simp only [Lineage.any, hexcluded, hsame.parent, ih]

theorem excludedWithin (root operand : ExprId) :
    db'.excludedWithin root operand = db.excludedWithin root operand := by
  rw [Database.excludedWithin, Database.excludedWithin]
  rcases h.expr operand with ⟨fault, he, he'⟩ | ⟨e, e', he, he', hsame⟩
  · rw [he, he']
    rfl
  · have hexcluded : e'.excluded = e.excluded :=
      excluded_eq_of_flagged hflag (db.expr_eq_ok_iff.mp he) (db'.expr_eq_ok_iff.mp he')
    simp only [he, he', bind, Except.bind, hexcluded, lineage, h.size, hsame.parent,
      h.any_upTo_climb hflag]

/-- Two forests of one shape with the same exclusions mute the same nodes. -/
theorem muted (hf : db.Forest) (hf' : db'.Forest) : db'.muted = db.muted := by
  funext id
  rw [Bool.eq_iff_iff, hf'.muted_iff_flagged, hf.muted_iff_flagged, hflag, h.under]

end SameShape

section Kinds

variable {cfg cfg' : ScoringConfig} {id : ExprId} {e e' : Expression}
  {R : List Point → List Point → Prop}
  (hkind : ∀ kind site excluded,
    Checked.Yields R (db.pointsOf cfg id e kind site excluded)
      (db'.pointsOf cfg' id e' kind site excluded))

include hkind

/-- The points of an operand, as they are found from the scored node. -/
theorem inputPoints_yields {o o' : ExprId} (kind : PointKind) {site : ExprId}
    (ho : e.operandOf site kind = some o) (ho' : e'.operandOf site kind = some o')
    (excluded : Bool) :
    Checked.Yields R
      (db.inputPoints site o kind kind.observation.flag kind.observation.mask excluded
        (e.bitwiseWidth cfg))
      (db'.inputPoints site o' kind kind.observation.flag kind.observation.mask excluded
        (e'.bitwiseWidth cfg')) := by
  have hpoints := hkind kind site excluded
  rw [pointsOf, pointsOf, ho, ho'] at hpoints
  exact hpoints

/-- The points of a kind, from the evidence that a node has of itself. -/
theorem ownPoints_yields (kind : PointKind) {site : ExprId} (hnone : e.operandOf site kind = none)
    (hnone' : e'.operandOf site kind = none) (excluded : Bool) :
    Checked.Yields R
      ((Evidence.own id e (kind.observation.flag e) kind.observation.mask).points kind site excluded
        (e.bitwiseWidth cfg))
      ((Evidence.own id e' (kind.observation.flag e') kind.observation.mask).points kind site
        excluded (e'.bitwiseWidth cfg')) := by
  have hpoints := hkind kind site excluded
  rw [pointsOf, pointsOf, hnone, hnone'] at hpoints
  exact hpoints

variable (he : db.expr? id = some e) (he' : db'.expr? id = some e') (hsame : e.SameShape e')
  (happend : ∀ {a a' b b' : List Point}, R a a' → R b b' → R (a ++ b) (a' ++ b'))

include he he' hsame happend

/-- The points of a node that stands alone. -/
theorem singlePoints_yields (excluded : Bool) :
    Checked.Yields R (db.singlePoints id cfg excluded) (db'.singlePoints id cfg' excluded) := by
  rw [singlePoints, singlePoints, db.expr_eq_ok_iff.mpr he, db'.expr_eq_ok_iff.mpr he']
  have own (kind : PointKind) (hnone : e.operandOf id kind = none)
      (hnone' : e'.operandOf id kind = none) := ownPoints_yields hkind kind hnone hnone' excluded
  have inputs {left right : ExprId} (hpair : e.pair id = .ok (left, right)) :
      e.left = some left ∧ e.right = some right ∧ e'.left = some left ∧ e'.right = some right := by
    rw [Expression.pair] at hpair
    split at hpair <;> cases hpair
    rename_i hleft hright
    exact ⟨hleft, hright, hsame.left.trans hleft, hsame.right.trans hright⟩
  simp only [bind, Except.bind, hsame.category, hsame.pair]
  cases e.category with
  | andGate =>
    apply Checked.Yields.bind_right
    rintro ⟨left, right⟩ hpair
    obtain ⟨hl, hr, hl', hr'⟩ := inputs hpair
    refine (inputPoints_yields hkind .leftFalse hl hl' excluded).bind fun l l' hl => ?_
    refine (inputPoints_yields hkind .rightFalse hr hr' excluded).bind fun r r' hr => ?_
    refine (own .bothTrue rfl rfl).bind fun both both' hboth => ?_
    exact .ok (happend (happend hl hr) hboth)
  | orGate =>
    apply Checked.Yields.bind_right
    rintro ⟨left, right⟩ hpair
    obtain ⟨hl, hr, hl', hr'⟩ := inputs hpair
    refine (inputPoints_yields hkind .leftTrue hl hl' excluded).bind fun l l' hl => ?_
    refine (inputPoints_yields hkind .rightTrue hr hr' excluded).bind fun r r' hr => ?_
    refine (own .bothFalse rfl rfl).bind fun both both' hboth => ?_
    exact .ok (happend (happend hl hr) hboth)
  | comparison =>
    refine Checked.Yields.bind_right _ fun _ _ => ?_
    refine (own (.joint false false) rfl rfl).bind fun p00 p00' h00 => ?_
    refine (own (.joint false true) rfl rfl).bind fun p01 p01' h01 => ?_
    refine (own (.joint true false) rfl rfl).bind fun p10 p10' h10 => ?_
    refine (own (.joint true true) rfl rfl).bind fun p11 p11' h11 => ?_
    exact .ok (happend (happend (happend h00 h01) h10) h11)
  | event => exact own .eventFired rfl rfl
  | value | constant | control =>
    refine (own .valueTrue rfl rfl).bind fun t t' ht => ?_
    refine (own .valueFalse rfl rfl).bind fun f f' hf => ?_
    exact .ok (happend ht hf)

variable (h : db.SameShape db') (hflag : db'.flagged = db.flagged) (hnil : R [] [])

include h hflag

omit he he' hsame happend in
/-- The points of one operand of a chain. -/
theorem operandPoints_yields (isAnd excluded : Bool) (o : ExprId) :
    Checked.Yields R (db.operandPoints id isAnd excluded (e.bitwiseWidth cfg) o)
      (db'.operandPoints id isAnd excluded (e'.bitwiseWidth cfg') o) := by
  have side (within : Bool) : Checked.Yields R
      (if isAnd
        then db.inputPoints o o .operandFalse (·.wasFalse) (·.wasFalse) within (e.bitwiseWidth cfg)
        else db.inputPoints o o .operandTrue (·.wasTrue) (·.wasTrue) within (e.bitwiseWidth cfg))
      (if isAnd
        then db'.inputPoints o o .operandFalse (·.wasFalse) (·.wasFalse) within
          (e'.bitwiseWidth cfg')
        else db'.inputPoints o o .operandTrue (·.wasTrue) (·.wasTrue) within
          (e'.bitwiseWidth cfg')) := by
    cases isAnd with
    | true => exact inputPoints_yields hkind .operandFalse rfl rfl within
    | false => exact inputPoints_yields hkind .operandTrue rfl rfl within
  rw [operandPoints, operandPoints, h.excludedWithin hflag]
  cases excluded with
  | true => exact side true
  | false => exact Checked.Yields.bind_right _ fun within _ => side within

include hnil

/-- The points of a chain: those of the operands in order, then those of the whole. -/
theorem chainPoints_yields (excluded : Bool) :
    Checked.Yields R (db.chainPoints id cfg excluded) (db'.chainPoints id cfg' excluded) := by
  have flatten {pss pss' : List (List Point)} (hall : List.Forall₂ R pss pss') :
      R pss.flatten pss'.flatten := by
    induction hall with
    | nil => exact hnil
    | cons hps _ ih => exact happend hps ih
  rw [chainPoints, chainPoints, db.expr_eq_ok_iff.mpr he, db'.expr_eq_ok_iff.mpr he']
  simp only [ok_bind, hsame.category, h.chainOperands]
  refine Checked.Yields.bind_right _ fun operands _ => ?_
  refine (Checked.Yields.mapM fun o _ =>
    operandPoints_yields hkind h hflag _ excluded o).bind fun each each' heach => ?_
  split
  · refine (ownPoints_yields hkind .allTrue rfl rfl excluded).bind
      fun all all' hall => ?_
    exact .ok (happend (flatten heach) hall)
  · refine (ownPoints_yields hkind .allFalse rfl rfl excluded).bind
      fun all all' hall => ?_
    exact .ok (happend (flatten heach) hall)

/-- What is kept along lists and relates the points of every kind relates the points of the node. -/
theorem nodePoints_yields (hcfg : cfg'.chains = cfg.chains) (excluded : Bool) :
    Checked.Yields (Option.Rel R) (db.nodePoints id cfg excluded)
      (db'.nodePoints id cfg' excluded) := by
  have single := singlePoints_yields hkind he he' hsame happend excluded
  have chain := chainPoints_yields hkind he he' hsame happend h hflag hnil excluded
  rw [nodePoints, nodePoints, h.isSubsumed, h.chainRole hcfg]
  refine Checked.Yields.bind_right _ fun subsumed _ => ?_
  cases subsumed with
  | true => exact .ok .none
  | false =>
    refine Checked.Yields.bind_right _ fun role _ => ?_
    rcases role with _ | (_ | _ | _)
    · exact single.bind fun _ _ hps => .ok (.some hps)
    · exact chain.bind fun _ _ hps => .ok (.some hps)
    · exact .ok .none
    · exact single.bind fun _ _ hps => .ok (.some hps)

/-- The same for the points that a node is scored on, where it sits. -/
theorem scoredPoints_yields (hcfg : cfg'.chains = cfg.chains)
    (hbudget : cfg'.depthBudget = cfg.depthBudget) (hf : db.Forest) (hf' : db'.Forest) :
    Checked.Yields (Option.Rel R) (db.scoredPoints id cfg) (db'.scoredPoints id cfg') := by
  have hplace : db'.place id = db.place id := by
    rw [place, place, h.depth, h.muted hflag hf hf', h.allConstant]
  have hscored : (db.place id).isScored e' cfg' = (db.place id).isScored e cfg := by
    rw [Placement.isScored, Placement.isScored, hsame.isScorable, ScoringConfig.reaches, hbudget,
      ScoringConfig.reaches]
  rw [hf.scoredPoints_eq he, hf'.scoredPoints_eq he', hplace, pointsAt, pointsAt, hscored]
  split
  · exact nodePoints_yields hkind he he' hsame happend h hflag hnil hcfg _
  · exact .ok .none

end Kinds

end Database

end LogicCoverage
