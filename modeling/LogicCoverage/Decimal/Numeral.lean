/-!
# Decimal numerals

Numerals are ASCII digits. Leading zeros are allowed, signs where the reader says so.
-/

namespace LogicCoverage.Decimal

def isDigit (c : Char) : Bool := '0' ≤ c && c ≤ '9'

/-- One digit or more. -/
def natural? (cs : List Char) : Option Nat :=
  if cs.isEmpty || !cs.all isDigit then none
  else some (cs.foldl (fun n c => n * 10 + (c.toNat - 48)) 0)

/-- Digits behind an optional `+`. -/
def unsigned? : List Char → Option Nat
  | '+' :: rest => natural? rest
  | cs => natural? cs

/-- Digits behind an optional sign. -/
def signed? : List Char → Option Int
  | '-' :: rest => (natural? rest).map fun n => -(n : Int)
  | cs => (unsigned? cs).map fun n => (n : Int)

/-- A word that is read behind an optional `+`. -/
def uint32? (s : String) : Option UInt32 :=
  match unsigned? s.toList with
  | some n => if n < UInt32.size then some (UInt32.ofNat n) else none
  | none => none

/-- A word that is read behind an optional sign. -/
def signedUInt32? (s : String) : Option UInt32 :=
  match signed? s.toList with
  | some n => if 0 ≤ n ∧ n < UInt32.size then some (UInt32.ofNat n.toNat) else none
  | none => none

end LogicCoverage.Decimal
