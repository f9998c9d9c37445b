import LogicCoverage.Exclusion

/-!
# The engine

An engine carries the configuration that every operation needs, and remembers the one of its last
pass over all scopes: when they differ, the next pass clears all underline ids first.
-/

namespace LogicCoverage

structure Engine where
  config : ScoringConfig
  /-- The configuration of the last pass. -/
  scoredWith : Option ScoringConfig
deriving DecidableEq

namespace Engine

/-- Underline ids that a database brings along are kept in the first pass. -/
def new (config : ScoringConfig) : Engine := ⟨config, none⟩

/-- The configuration from the next operation on. -/
def setConfig (engine : Engine) (config : ScoringConfig) : Engine := { engine with config }

/-- The last pass ran under another configuration. -/
def isOutdated (engine : Engine) : Bool := engine.scoredWith.any (· ≠ engine.config)

/-- Scores one scope of a pass. -/
def scoreScope (cfg : ScoringConfig) (s : List (ScopeId × Statistic) × Database) (id : ScopeId) :
    Request (List (ScopeId × Statistic) × Database) := do
  let (stat, db) ← s.2.recalcScope id cfg
  return (s.1 ++ [(id, stat)], db)

/-- Scores every scope. -/
def scoreAll (engine : Engine) (db : Database) :
    Request (List (ScopeId × Statistic) × Engine × Database) := do
  let db ←
    if engine.isOutdated then
      Checked.request (db.stmtIds.foldlM (fun db stmt => db.resetUnderlines stmt) db)
    else .ok db
  let (stats, db) ← db.scopeIds.foldlM (scoreScope engine.config) ([], db)
  return (stats, { engine with scoredWith := some engine.config }, db)

end Engine

end LogicCoverage
