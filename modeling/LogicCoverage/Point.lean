import LogicCoverage.Chain

/-!
# Coverage points

Every scored node or chain expands to a list of coverage points, each a combination of values that
the simulation has to show. Counting and reporting both work on these lists.
-/

namespace LogicCoverage

/-- What a point asks of the simulation. -/
inductive PointKind where
  /-- An AND was driven false by its left input; likewise below. -/
  | leftFalse
  | rightFalse
  | bothTrue
  /-- An OR was driven true by its left input; likewise below. -/
  | leftTrue
  | rightTrue
  | bothFalse
  /-- The inputs of a comparison had these values together. -/
  | joint (left right : Bool)
  | eventFired
  | valueTrue
  | valueFalse
  /-- An operand of an AND chain was false. -/
  | operandFalse
  /-- An operand of an OR chain was true. -/
  | operandTrue
  | allTrue
  | allFalse
deriving DecidableEq

/-- `0` or `1`. -/
def bitText (b : Bool) : String := if b then "1" else "0"

def PointKind.name : PointKind → String
  | leftFalse => "LeftFalse"
  | rightFalse => "RightFalse"
  | bothTrue => "BothTrue"
  | leftTrue => "LeftTrue"
  | rightTrue => "RightTrue"
  | bothFalse => "BothFalse"
  | joint left right => "Joint" ++ bitText left ++ bitText right
  | eventFired => "EventFired"
  | valueTrue => "ValueTrue"
  | valueFalse => "ValueFalse"
  | operandFalse => "OperandFalse"
  | operandTrue => "OperandTrue"
  | allTrue => "AllTrue"
  | allFalse => "AllFalse"

structure Point where
  kind : PointKind
  /-- The simulation showed it. -/
  hit : Bool
  /-- It counts as shown because a node at or above it is excluded. -/
  excluded : Bool
  /-- The bit, when scored bit by bit. -/
  bit : Option UInt32
  /-- The node that a report underlines for it. -/
  site : ExprId
deriving DecidableEq

namespace Point

def covered (p : Point) : Bool := p.hit || p.excluded

/-- Covered by an exclusion alone. -/
def waived (p : Point) : Bool := p.excluded && !p.hit

def missing (p : Point) : Bool := !p.covered

end Point

/-- What the simulation showed of a combination, as a whole and at each bit. -/
structure Evidence where
  scalar : Bool
  bit : UInt32 → Checked Bool

namespace Evidence

/-- Evidence recorded at the scored node itself. -/
def own (id : ExprId) (e : Expression) (scalar : Bool) (pick : BitHistory → BitMask) : Evidence where
  scalar
  bit b := do (pick (← e.requireHistory id)).get b

/-- Evidence recorded at an operand, laid out at the width of the scored node: an operand of one
bit, and the bits beyond a narrower operand, take its value as a whole. -/
def operand (id : ExprId) (e : Expression) (scalar : Bool) (pick : BitHistory → BitMask) :
    Evidence where
  scalar
  bit b :=
    if 1 < e.width ∧ b < e.width then do (pick (← e.requireHistory id)).get b else .ok scalar

/-- One point, or one for each bit of the scored width. -/
def points (ev : Evidence) (kind : PointKind) (site : ExprId) (excluded : Bool) :
    Option UInt32 → Checked (List Point)
  | none => .ok [⟨kind, ev.scalar, excluded, none, site⟩]
  | some width => Checked.tabulate width.toNat fun n => do
    let b := UInt32.ofNat n
    return ⟨kind, ← ev.bit b, excluded, some b, site⟩

end Evidence

/-- The width at which a node is scored bit by bit. -/
def Expression.bitwiseWidth (e : Expression) (cfg : ScoringConfig) : Option UInt32 :=
  if cfg.bitwise && 1 < e.width then some e.width else none

namespace Database

variable (db : Database)

/-- The point of one input of a two-input gate. -/
def inputPoints (site operand : ExprId) (kind : PointKind) (scalar : Expression → Bool)
    (pick : BitHistory → BitMask) (excluded : Bool) (width : Option UInt32) :
    Checked (List Point) := do
  let e ← db.expr operand
  (Evidence.operand operand e (scalar e) pick).points kind site excluded width

/-- The points of a node that is scored on its own. -/
def singlePoints (id : ExprId) (cfg : ScoringConfig) (excluded : Bool) : Checked (List Point) := do
  let e ← db.expr id
  let width := e.bitwiseWidth cfg
  let own (kind : PointKind) (scalar : Bool) (pick : BitHistory → BitMask) :=
    (Evidence.own id e scalar pick).points kind id excluded width
  match e.category with
  | .andGate => do
    let (left, right) ← e.pair id
    let l ← db.inputPoints id left .leftFalse (·.wasFalse) (·.wasFalse) excluded width
    let r ← db.inputPoints id right .rightFalse (·.wasFalse) (·.wasFalse) excluded width
    let both ← own .bothTrue e.eval11 (·.eval11)
    return l ++ r ++ both
  | .orGate => do
    let (left, right) ← e.pair id
    let l ← db.inputPoints id left .leftTrue (·.wasTrue) (·.wasTrue) excluded width
    let r ← db.inputPoints id right .rightTrue (·.wasTrue) (·.wasTrue) excluded width
    let both ← own .bothFalse e.eval00 (·.eval00)
    return l ++ r ++ both
  | .comparison => do
    let _ ← e.pair id
    let p00 ← own (.joint false false) e.eval00 (·.eval00)
    let p01 ← own (.joint false true) e.eval01 (·.eval01)
    let p10 ← own (.joint true false) e.eval10 (·.eval10)
    let p11 ← own (.joint true true) e.eval11 (·.eval11)
    return p00 ++ p01 ++ p10 ++ p11
  | .event => own .eventFired e.wasTrue (·.wasTrue)
  | .value | .constant | .control => do
    let t ← own .valueTrue e.wasTrue (·.wasTrue)
    let f ← own .valueFalse e.wasFalse (·.wasFalse)
    return t ++ f

/-- The operand, or a chain member between it and the root, is excluded. -/
def excludedWithin (root operand : ExprId) : Checked Bool := do
  let e ← db.expr operand
  if e.excluded then .ok true
  else ((db.lineage e.parent).upTo root).any fun _ node => node.excluded

/-- The points of one operand of a chain. -/
def operandPoints (root : ExprId) (isAnd excluded : Bool) (width : Option UInt32)
    (operand : ExprId) : Checked (List Point) := do
  let excluded ← if excluded then .ok true else db.excludedWithin root operand
  if isAnd then db.inputPoints operand operand .operandFalse (·.wasFalse) (·.wasFalse) excluded width
  else db.inputPoints operand operand .operandTrue (·.wasTrue) (·.wasTrue) excluded width

/-- The points of a chain: one for each operand, and one for all of them together. -/
def chainPoints (root : ExprId) (cfg : ScoringConfig) (excluded : Bool) : Checked (List Point) := do
  let e ← db.expr root
  let width := e.bitwiseWidth cfg
  let isAnd : Bool := e.category = .andGate
  let each ← (← db.chainOperands root).mapM (db.operandPoints root isAnd excluded width)
  let all ←
    if isAnd then (Evidence.own root e e.eval11 (·.eval11)).points .allTrue root excluded width
    else (Evidence.own root e e.eval00 (·.eval00)).points .allFalse root excluded width
  return each.flatten ++ all

/-- The points of a node, given whether it or a node above it is excluded; none where another node
is scored instead. -/
def nodePoints (id : ExprId) (cfg : ScoringConfig) (excluded : Bool) :
    Checked (Option (List Point)) := do
  if ← db.isSubsumed id then .ok none
  else
    match ← db.chainRole id cfg with
    | some .interior => .ok none
    | some .root => return some (← db.chainPoints id cfg excluded)
    | some .boundary | none => return some (← db.singlePoints id cfg excluded)

end Database

end LogicCoverage
