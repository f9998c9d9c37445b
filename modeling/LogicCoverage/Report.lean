import LogicCoverage.Decimal.OnePlace
import LogicCoverage.Detail
import LogicCoverage.Engine

/-!
# Reports

A report says for every scope how much is covered and, if wanted, what is missing at every statement
root that is not covered. It is put together first and written out afterwards.
-/

namespace LogicCoverage

/-- An uncovered statement root and what its tree misses. -/
structure RootReport where
  root : RootSummary
  rows : List Row
deriving DecidableEq

structure ScopeReport where
  name : String
  kind : ScopeKind
  stat : Statistic
  missed : UInt32
  roots : List RootReport
deriving DecidableEq

namespace ScopeReport

/-- What the tree of a statement root misses; nothing is said of a root without a statement. -/
def ofRoot (db : Database) (cfg : ScoringConfig) (root : RootSummary) : Checked RootReport := do
  match ← db.statementOf root.expr with
  | some stmt => return ⟨root, ← db.statementDetail stmt cfg⟩
  | none => return ⟨root, []⟩

/-- The report on a scope that has been scored. -/
def ofScope (db : Database) (cfg : ScoringConfig) (detail : Bool) (id : ScopeId) :
    Request ScopeReport := do
  let scope ← Checked.request (db.scope id)
  let missed ← Checked.request scope.stat.combMissed
  let roots ←
    if detail then do
      let lists ← db.collectRoots id cfg
      Checked.request (lists.uncovered.mapM (ofRoot db cfg))
    else .ok []
  return ⟨scope.name, scope.kind, scope.stat, missed, roots⟩

end ScopeReport

namespace Database

/-- The scopes that are reported unless one is asked for: the instances, or all others. -/
def reportedScopes (db : Database) (perInstance : Bool) : List ScopeId :=
  db.scopeIds.filter fun id =>
    (db.scope? id).any fun s => (s.kind == .instanceScope) == perInstance

/-- The scope that is asked for, or those that are reported by default. -/
def chosenScopes (db : Database) (perInstance : Bool) : Option String → Request (List ScopeId)
  | some name => (db.scopeByName name).map fun id => [id]
  | none => .ok (db.reportedScopes perInstance)

/-- Scores a database and reports on the chosen scopes. -/
def report (db : Database) (settings : Settings) (scope : Option String) (detail : Bool) :
    Request (List ScopeReport) := do
  let (_, engine, db) ← (Engine.new settings.scoring).scoreAll db
  let scopes ← db.chosenScopes settings.perInstance scope
  scopes.mapM (ScopeReport.ofScope db engine.config detail)

end Database

/-- `3/4` -/
def shareText (hit total : UInt32) : String := hit.toNat.repr ++ "/" ++ total.toNat.repr

/-- The label of a row is its underline id. -/
def Row.label (row : Row) : String :=
  match row.underline with
  | some n => "[" ++ n.toNat.repr ++ "]"
  | none => "[-]"

def Row.line (row : Row) : String :=
  "    " ++ row.label ++ " " ++ row.site.text ++ ": " ++ row.describe

def RootReport.line (r : RootReport) : String :=
  "  line " ++ r.root.line.toNat.repr ++ " " ++ r.root.expr.text ++ ": " ++
    shareText r.root.counts.hit r.root.counts.total

def RootReport.lines (r : RootReport) : List String := r.line :: r.rows.map Row.line

def ScopeReport.line (r : ScopeReport) : String :=
  let s := r.stat
  r.name ++ " (" ++ r.kind.name ++ "): comb " ++ shareText s.combHit s.combTotal ++ " (" ++
    Decimal.onePlace s.percentComb ++ "%, " ++ r.missed.toNat.repr ++ " missing, " ++
    s.combExcluded.toNat.repr ++ " excluded), line " ++ shareText s.lineHit s.lineTotal ++ " (" ++
    Decimal.onePlace s.percentLine ++ "%)"

def ScopeReport.lines (r : ScopeReport) : List String :=
  r.line :: r.roots.flatMap RootReport.lines

/-- The text of a report, a line for each line. -/
def reportText (reports : List ScopeReport) : String :=
  String.join ((reports.flatMap ScopeReport.lines).map fun line => line ++ "\n")

end LogicCoverage
