import LogicCoverage.Bits.Mask

/-!
# Per-bit history

For every bit of a wide value, what the simulation saw of it: the values it took, and for two-input
nodes the pairs of input values.
-/

namespace LogicCoverage

structure BitHistory where
  wasTrue : BitMask
  wasFalse : BitMask
  eval00 : BitMask
  eval01 : BitMask
  eval10 : BitMask
  eval11 : BitMask
deriving DecidableEq

/-- The width the simulator recorded. -/
def BitHistory.width (h : BitHistory) : UInt32 := h.wasTrue.width

end LogicCoverage
