import LogicCoverage.Fault

/-!
# Counters

Counters are 32-bit words; leaving that range is a fault, never a wrap.
-/

namespace LogicCoverage.Counter

/-- The sum of a word and a count, or a given fault. -/
def addOr (fault : Fault) (a : UInt32) (n : Nat) : Checked UInt32 :=
  if a.toNat + n < UInt32.size then .ok (UInt32.ofNat (a.toNat + n)) else .error fault

/-- The sum of a counter and a count. -/
def add (a : UInt32) (n : Nat) : Checked UInt32 := addOr .counterOverflow a n

/-- The difference of two counters. -/
def sub (a b : UInt32) : Checked UInt32 :=
  if b.toNat ≤ a.toNat then .ok (a - b) else .error .counterUnderflow

/-- A counter moved by a signed amount, if the result is in range. -/
def shift? (a : UInt32) (delta : Int) : Option UInt32 :=
  let next := (a.toNat : Int) + delta
  if 0 ≤ next ∧ next < UInt32.size then some (UInt32.ofNat next.toNat) else none

/-- A sum comes about just if it fits. -/
theorem addOr_eq_ok_iff {fault : Fault} {a c : UInt32} {n : Nat} :
    addOr fault a n = .ok c ↔ c.toNat = a.toNat + n := by
  unfold addOr
  have hc := c.toNat_lt_size
  split
  · rename_i h
    constructor
    · rintro h'
      cases h'
      simp only [UInt32.toNat_ofNat']
      exact Nat.mod_eq_of_lt h
    · intro h'
      rw [← h', UInt32.ofNat_toNat]
  · rename_i h
    constructor
    · intro h'; cases h'
    · intro h'; exact absurd (h' ▸ hc) h

theorem add_eq_ok_iff {a c : UInt32} {n : Nat} : add a n = .ok c ↔ c.toNat = a.toNat + n :=
  addOr_eq_ok_iff

/-- A difference comes about just if it is not negative. -/
theorem sub_eq_ok_iff {a b c : UInt32} : sub a b = .ok c ↔ c.toNat + b.toNat = a.toNat := by
  unfold sub
  have ha := a.toNat_lt_size
  split
  · rename_i h
    have hs : (a - b).toNat = a.toNat - b.toNat := UInt32.toNat_sub_of_le a b h
    constructor
    · intro h'
      cases h'
      omega
    · intro h'
      have : a - b = c := UInt32.toNat_inj.1 (by omega)
      rw [this]
  · rename_i h
    constructor
    · intro h'; cases h'
    · intro h'; omega

/-- A counter is moved just if the result is in range. -/
theorem shift?_eq_some_iff {a c : UInt32} {delta : Int} :
    shift? a delta = some c ↔ (c.toNat : Int) = a.toNat + delta := by
  unfold shift?
  have hc := c.toNat_lt_size
  simp only
  split
  · rename_i h
    have hn : (UInt32.ofNat ((a.toNat : Int) + delta).toNat).toNat = ((a.toNat : Int) + delta).toNat :=
      UInt32.toNat_ofNat_of_lt' (by omega)
    constructor
    · intro h'
      cases h'
      omega
    · intro h'
      exact congrArg some (UInt32.toNat_inj.1 (by omega))
  · constructor
    · intro h'; cases h'
    · intro h'; omega

end LogicCoverage.Counter
