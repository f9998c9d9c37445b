import LogicCoverage.Proofs.Agreement
import LogicCoverage.ScopeScore
import Mathlib.Algebra.Order.BigOperators.Group.Finset

/-!
# Tallies

A statistic has six counters. What a statement adds to them is its share: the points of its tree,
and its line. The tally of a scope sums up the shares of the statements it lists, each once.
-/

namespace LogicCoverage

open Finset

/-- The counters of a statistic. -/
inductive Column where
  | combHit | combTotal | combExcluded | lineHit | lineTotal | lineExcluded
deriving DecidableEq

/-- The counter in a column. -/
def Statistic.tally (s : Statistic) : Column → Nat
  | .combHit => s.combHit.toNat
  | .combTotal => s.combTotal.toNat
  | .combExcluded => s.combExcluded.toNat
  | .lineHit => s.lineHit.toNat
  | .lineTotal => s.lineTotal.toNat
  | .lineExcluded => s.lineExcluded.toNat

/-- A statistic is known by its columns. -/
theorem Statistic.tally_inj {s s' : Statistic} (h : s.tally = s'.tally) : s = s' := by
  have hcol (col : Column) : s.tally col = s'.tally col := congrFun h col
  cases s
  cases s'
  rw [mk.injEq]
  exact ⟨UInt32.toNat_inj.mp (hcol .combHit), UInt32.toNat_inj.mp (hcol .combTotal),
    UInt32.toNat_inj.mp (hcol .combExcluded), UInt32.toNat_inj.mp (hcol .lineHit),
    UInt32.toNat_inj.mp (hcol .lineTotal), UInt32.toNat_inj.mp (hcol .lineExcluded)⟩

/-- All columns are in range. -/
theorem Statistic.tally_lt (s : Statistic) (col : Column) : s.tally col < UInt32.size := by
  cases col <;> exact UInt32.toNat_lt_size _

/-- What is excluded is covered, and what is covered is there. -/
structure Ordered (tally : Column → Nat) : Prop where
  combExcluded_le : tally .combExcluded ≤ tally .combHit
  combHit_le : tally .combHit ≤ tally .combTotal
  lineExcluded_le : tally .lineExcluded ≤ tally .lineHit
  lineHit_le : tally .lineHit ≤ tally .lineTotal

/-- No column is above both totals. -/
theorem Ordered.le_total {tally : Column → Nat} (h : Ordered tally) (col : Column) :
    tally col ≤ tally .combTotal ∨ tally col ≤ tally .lineTotal := by
  cases col with
  | combTotal => exact .inl (le_refl _)
  | combHit => exact .inl h.combHit_le
  | combExcluded => exact .inl (h.combExcluded_le.trans h.combHit_le)
  | lineTotal => exact .inr (le_refl _)
  | lineHit => exact .inr h.lineHit_le
  | lineExcluded => exact .inr (h.lineExcluded_le.trans h.lineHit_le)

/-- What is ordered adds up to what is ordered. -/
theorem Ordered.sum {ι : Type} {f : ι → Column → Nat} (h : ∀ i, Ordered (f i)) (s : Finset ι) :
    Ordered fun col => ∑ i ∈ s, f i col where
  combExcluded_le := sum_le_sum fun i _ => (h i).combExcluded_le
  combHit_le := sum_le_sum fun i _ => (h i).combHit_le
  lineExcluded_le := sum_le_sum fun i _ => (h i).lineExcluded_le
  lineHit_le := sum_le_sum fun i _ => (h i).lineHit_le

/-! ## Shares -/

/-- What the points of a tree add. -/
def pointTally (points : List Point) : Column → Nat
  | .combHit => points.countP Point.covered
  | .combTotal => points.length
  | .combExcluded => points.countP Point.waived
  | _ => 0

/-- What the line of a statement adds. -/
def lineTally (root : Expression) (lineExcluded : Bool) : Column → Nat
  | .lineTotal => if root.hasLine then 1 else 0
  | .lineHit => if root.hasLine ∧ (0 < root.execCount ∨ lineExcluded) then 1 else 0
  | .lineExcluded => if root.hasLine ∧ ¬ 0 < root.execCount ∧ lineExcluded then 1 else 0
  | _ => 0

/-- Points that are waived are covered, and points that are covered are points. -/
theorem pointTally_ordered (points : List Point) : Ordered (pointTally points) :=
  ⟨Point.countP_waived_le points, List.countP_le_length, le_refl _, le_refl _⟩

/-- A line that is excluded counts as hit, and a line that is hit counts. -/
theorem lineTally_ordered (root : Expression) (lineExcluded : Bool) :
    Ordered (lineTally root lineExcluded) := by
  refine ⟨le_refl _, le_refl _, ?_, ?_⟩ <;> simp only [lineTally] <;> grind

theorem lineTally_bare (root : Expression) (lineExcluded : Bool) :
    lineTally root.bare lineExcluded = lineTally root lineExcluded := by
  funext col
  cases col <;> rfl

namespace Database

/-- What a statement adds to the statistic of a scope that lists it. -/
def share (db : Database) (cfg : ScoringConfig) (id : StmtId) (col : Column) : Nat :=
  match db.stmt? id with
  | none => 0
  | some stmt =>
    pointTally (db.treePoints cfg stmt.root) col +
      (db.expr? stmt.root).elim 0 fun root => lineTally root stmt.lineExcluded col

/-- What listed statements add up to, each once. -/
def tallyOf (db : Database) (cfg : ScoringConfig) (stmts : List StmtId) (col : Column) : Nat :=
  ∑ id ∈ stmts.toFinset, db.share cfg id col

variable {db : Database} {cfg : ScoringConfig}

/-- A statement adds its points and its line. -/
theorem share_eq {id : StmtId} {stmt : Statement} {root : Expression} (hs : db.stmt? id = some stmt)
    (hr : db.expr? stmt.root = some root) (col : Column) :
    db.share cfg id col =
      pointTally (db.treePoints cfg stmt.root) col + lineTally root stmt.lineExcluded col := by
  rw [share, hs]
  dsimp only
  rw [hr]
  rfl

/-- All points of a tree are in the total that its statement adds. -/
theorem Forest.length_treePoints_le (hf : db.Forest) {id : StmtId} {stmt : Statement}
    (hs : db.stmt? id = some stmt) :
    (db.treePoints cfg stmt.root).length ≤ db.share cfg id .combTotal := by
  obtain ⟨root, hr, -⟩ := hf.root hs
  rw [share_eq hs hr, pointTally]
  exact Nat.le_add_right _ _

/-- What a statement adds is ordered. -/
theorem share_ordered (id : StmtId) : Ordered (db.share cfg id) := by
  cases hs : db.stmt? id with
  | none =>
    have hzero : db.share cfg id = fun _ => 0 := by
      funext col
      rw [share, hs]
    rw [hzero]
    exact ⟨le_refl _, le_refl _, le_refl _, le_refl _⟩
  | some stmt =>
    have hp := pointTally_ordered (db.treePoints cfg stmt.root)
    cases hr : db.expr? stmt.root with
    | none =>
      have hpoints : db.share cfg id = pointTally (db.treePoints cfg stmt.root) := by
        funext col
        rw [share, hs]
        dsimp only
        rw [hr]
        rfl
      rw [hpoints]
      exact hp
    | some root =>
      have hl := lineTally_ordered root stmt.lineExcluded
      rw [show db.share cfg id = _ from funext (share_eq hs hr)]
      exact ⟨Nat.add_le_add hp.combExcluded_le hl.combExcluded_le,
        Nat.add_le_add hp.combHit_le hl.combHit_le,
        Nat.add_le_add hp.lineExcluded_le hl.lineExcluded_le,
        Nat.add_le_add hp.lineHit_le hl.lineHit_le⟩

/-- What some statements add is ordered. -/
theorem tallyOf_ordered (stmts : List StmtId) : Ordered (db.tallyOf cfg stmts) :=
  Ordered.sum share_ordered stmts.toFinset

/-- A statement adds no more than all of them. -/
theorem share_le_tallyOf {stmts : List StmtId} {id : StmtId} (hmem : id ∈ stmts) (col : Column) :
    db.share cfg id col ≤ db.tallyOf cfg stmts col :=
  single_le_sum (f := fun id => db.share cfg id col) (fun _ _ => Nat.zero_le _)
    (List.mem_toFinset.mpr hmem)

/-- If all statements add the same, so do they together. -/
theorem tallyOf_congr {db' : Database} {stmts : List StmtId}
    (h : ∀ id ∈ stmts, db'.share cfg id = db.share cfg id) :
    db'.tallyOf cfg stmts = db.tallyOf cfg stmts := by
  funext col
  exact sum_congr rfl fun id hid => congrFun (h id (List.mem_toFinset.mp hid)) col

/-- When one share changes, so does the tally of the scopes that list the statement. -/
theorem tallyOf_of_share {db' : Database} {stmts : List StmtId} {id : StmtId} {col : Column}
    {delta : Int} (hne : ∀ other, other ≠ id → db'.share cfg other = db.share cfg other)
    (hid : (db'.share cfg id col : Int) = db.share cfg id col + delta) (hmem : id ∈ stmts) :
    (db'.tallyOf cfg stmts col : Int) = db.tallyOf cfg stmts col + delta := by
  rw [← List.mem_toFinset] at hmem
  have hrest : ∑ other ∈ stmts.toFinset.erase id, db'.share cfg other col =
      ∑ other ∈ stmts.toFinset.erase id, db.share cfg other col :=
    sum_congr rfl fun other ho => congrFun (hne other (ne_of_mem_erase ho)) col
  rw [tallyOf, tallyOf, ← add_sum_erase _ _ hmem, ← add_sum_erase _ (db.share cfg · col) hmem,
    hrest]
  omega

/-- A scoring leaves the shares. -/
theorem Forest.share_eq_of_unscored (hf : db.Forest) {db' : Database}
    (h : db'.unscored = db.unscored) : db'.share cfg = db.share cfg := by
  have hb := bare_eq_of_unscored h
  funext id col
  have hstmt : db'.stmt? id = db.stmt? id := stmt?_eq_of_unscored h id
  cases hs : db.stmt? id with
  | none => rw [share, share, hstmt, hs]
  | some stmt =>
    obtain ⟨root, hr, -⟩ := hf.root hs
    obtain ⟨root', hr', hroot⟩ := exists_expr?_of_bare hb hr
    rw [share_eq (hstmt.trans hs) hr', share_eq hs hr, ← lineTally_bare root', hroot,
      lineTally_bare, hf.treePoints_congr hr hb fun x _ => congrFun (hf.muted_eq_of_unscored h) x]

end Database

end LogicCoverage
