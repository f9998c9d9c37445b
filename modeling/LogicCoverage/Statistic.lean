import LogicCoverage.Counter

/-!
# Cached statistics of a scope
-/

namespace LogicCoverage

structure Statistic where
  combHit : UInt32
  combTotal : UInt32
  combExcluded : UInt32
  lineHit : UInt32
  lineTotal : UInt32
  lineExcluded : UInt32
deriving DecidableEq

namespace Statistic

/-- The statistic of a scope that was never scored. -/
def zero : Statistic := ⟨0, 0, 0, 0, 0, 0⟩

instance : Inhabited Statistic := ⟨zero⟩

/-- Field by field. -/
def add (a b : Statistic) : Checked Statistic := do
  return {
    combHit := ← Counter.add a.combHit b.combHit.toNat
    combTotal := ← Counter.add a.combTotal b.combTotal.toNat
    combExcluded := ← Counter.add a.combExcluded b.combExcluded.toNat
    lineHit := ← Counter.add a.lineHit b.lineHit.toNat
    lineTotal := ← Counter.add a.lineTotal b.lineTotal.toNat
    lineExcluded := ← Counter.add a.lineExcluded b.lineExcluded.toNat }

/-- A share in percent, in binary64 arithmetic; nothing out of nothing is all of it. -/
def percent (hit total : UInt32) : Float :=
  if total = 0 then 100 else hit.toFloat * 100 / total.toFloat

def percentComb (s : Statistic) : Float := percent s.combHit s.combTotal

def percentLine (s : Statistic) : Float := percent s.lineHit s.lineTotal

/-- The points still missing. -/
def combMissed (s : Statistic) : Checked UInt32 := Counter.sub s.combTotal s.combHit

end Statistic

end LogicCoverage
