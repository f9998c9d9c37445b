import LogicCoverage.Id
import LogicCoverage.Operator

/-!
# Faults

A fault is a broken precondition: a link to nothing, a gate without its operands, a counter that
leaves its range. It ends the computation it occurs in; requests that merely name something absent
are answered by a `LookupError` instead.
-/

namespace LogicCoverage

/-- The cached counters that an exclusion moves. -/
inductive CounterName where
  | combHit | combExcluded | lineHit | lineExcluded
deriving DecidableEq

def CounterName.text : CounterName → String
  | combHit => "comb_hit"
  | combExcluded => "comb_excluded"
  | lineHit => "line_hit"
  | lineExcluded => "line_excluded"

inductive Fault where
  /-- An id beyond the `size` entities there are. -/
  | noSuchEntity (size index : Nat)
  /-- A bit of a mask whose word is beyond the `size` words there are. -/
  | noSuchWord (size index : Nat)
  /-- A bit written beyond a mask's width. -/
  | bitOutsideMask (bit width : UInt32)
  /-- A two-input node with fewer than two children. -/
  | missingOperand (op : Operator) (node : ExprId)
  /-- A wide node scored bit by bit that carries no per-bit history. -/
  | missingHistory (node : ExprId)
  /-- A sum left the range of counters. -/
  | counterOverflow
  /-- A difference left the range of counters. -/
  | counterUnderflow
  /-- A tree is deeper than a depth can say. -/
  | depthOverflow
  /-- No underline id is left to give. -/
  | underlinesExhausted
  /-- An exclusion moved a cached counter out of range. -/
  | staleCounter (counter : CounterName) (scope : ScopeId)
  /-- A tree had other points after an exclusion than before. -/
  | pointCountChanged (before after : UInt32)
  /-- The links of the database lead back to where they started. -/
  | endlessLinks
deriving DecidableEq

/-- A position beyond the end of a sequence. -/
def outOfBoundsText (size index : Nat) : String :=
  "index out of bounds: the len is " ++ size.repr ++ " but the index is " ++ index.repr

/-- A sum out of range. -/
def overflowText : String := "attempt to add with overflow"

def Fault.message : Fault → String
  | noSuchEntity size index => outOfBoundsText size index
  | noSuchWord size index => outOfBoundsText size index
  | bitOutsideMask bit width =>
    "bit " ++ bit.toNat.repr ++ " outside " ++ width.toNat.repr ++ "-bit mask"
  | missingOperand op node => op.name ++ " node " ++ node.text ++ " is missing an operand"
  | missingHistory node =>
    "bitwise scoring of " ++ node.text ++ " requires per-bit history from the simulator"
  | counterOverflow => overflowText
  | counterUnderflow => "attempt to subtract with overflow"
  | depthOverflow => overflowText
  | underlinesExhausted => overflowText
  | staleCounter counter scope =>
    counter.text ++ " of " ++ scope.text ++
      " out of range after exclusion; cached statistic was stale"
  | pointCountChanged before after =>
    "assertion `left == right` failed: exclusion changed the point count\n  left: " ++
      before.toNat.repr ++ "\n right: " ++ after.toNat.repr
  | endlessLinks => "the links of the database form a cycle"

/-- A computation that may end in a fault. -/
abbrev Checked (α : Type) : Type := Except Fault α

theorem ok_bind {ε α β : Type} (a : α) (f : α → Except ε β) : (Except.ok a >>= f) = f a := rfl

/-- A sequence of two computations succeeds when both do. -/
theorem bind_eq_ok_iff {ε α β : Type} {x : Except ε α} {f : α → Except ε β} {b : β} :
    x >>= f = .ok b ↔ ∃ a, x = .ok a ∧ f a = .ok b := by
  cases x <;> simp [bind, Except.bind]

namespace Checked

variable {α : Type}

/-- The results at `start` and the places after it, in order, on top of those found before. -/
def tabulateFrom (f : Nat → Checked α) : (count start : Nat) → (found : List α) → Checked (List α)
  | 0, _, found => .ok found.reverse
  | count + 1, start, found =>
    match f start with
    | .ok a => tabulateFrom f count (start + 1) (a :: found)
    | .error fault => .error fault

/-- The results at 0 and the places after it, in order. The first fault ends the computation, and no
place beyond it is looked at. -/
def tabulate (count : Nat) (f : Nat → Checked α) : Checked (List α) := tabulateFrom f count 0 []

theorem tabulateFrom_eq (f : Nat → Checked α) (count start : Nat) (found : List α) :
    tabulateFrom f count start found =
      ((List.range' start count).mapM f).map fun rest => found.reverse ++ rest := by
  induction count generalizing start found with
  | zero => simp [tabulateFrom, Except.map, pure, Except.pure]
  | succ count ih =>
    rw [List.range'_succ, List.mapM_cons, tabulateFrom]
    cases f start with
    | error fault => rfl
    | ok a =>
      simp only [ih, bind, Except.bind]
      cases (List.range' (start + 1) count).mapM f <;> simp [Except.map, pure, Except.pure]

theorem tabulate_eq_mapM (count : Nat) (f : Nat → Checked α) :
    tabulate count f = (List.range count).mapM f := by
  rw [tabulate, tabulateFrom_eq, List.range_eq_range']
  cases (List.range' 0 count).mapM f <;> simp [Except.map]

end Checked

end LogicCoverage
