/-!
# Settings
-/

namespace LogicCoverage

/-- What scoring depends on. Underline ids given under one configuration mean nothing under
another. -/
structure ScoringConfig where
  /-- Runs of gates of one family are scored as one chain. -/
  chains : Bool
  /-- Wide values are scored bit by bit. -/
  bitwise : Bool
  /-- The deepest level that is scored; all of them if absent. -/
  depthBudget : Option UInt32
deriving DecidableEq

def ScoringConfig.default : ScoringConfig := ⟨true, false, none⟩

instance : Inhabited ScoringConfig := ⟨.default⟩

/-- The settings of a project. -/
structure Settings where
  scoring : ScoringConfig
  /-- Instances are reported instead of definitions. -/
  perInstance : Bool
deriving DecidableEq

def Settings.default : Settings := ⟨.default, false⟩

instance : Inhabited Settings := ⟨.default⟩

end LogicCoverage
