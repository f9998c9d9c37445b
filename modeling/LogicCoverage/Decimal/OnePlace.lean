import LogicCoverage.Decimal.Rounding

/-!
# Numbers with one decimal place
-/

namespace LogicCoverage.Decimal

/-- The tenths nearest to a finite non-negative binary64 number. It is `m * 2 ^ (e - 1075)` exactly,
with `e` and the low bits of `m` read off its bit pattern. -/
def tenths (x : Float) : Nat :=
  let bits := x.toBits.toNat
  let e := (bits >>> 52) % 2048
  let low := bits % (1 <<< 52)
  let m := if e = 0 then low else low + (1 <<< 52)
  let e := if e = 0 then 1 else e
  if 1075 ≤ e then (m * 10) <<< (e - 1075) else roundHalfEven (m * 10) (1 <<< (1075 - e))

/-- A finite non-negative number with one decimal place, as in `62.5`. -/
def onePlace (x : Float) : String :=
  let n := tenths x
  (n / 10).repr ++ "." ++ (n % 10).repr

end LogicCoverage.Decimal
