import LogicCoverage.Point

/-!
# Underline ids

A report names what is missing by numbers that are given within one statement's tree. Numbering
goes on after the highest number present: nodes that have one keep it, excluded nodes lose theirs,
and a node that misses nothing gets none.
-/

namespace LogicCoverage

/-- Changes the number of a node. -/
def Database.setUnderline (db : Database) (id : ExprId) (underline : Option UInt32) : Database :=
  db.modifyExpr id fun e => { e with underline }

/-- A database whose underline ids are being renewed. -/
structure Underlining where
  db : Database
  /-- The number to be given next. -/
  next : UInt32

namespace Underlining

/-- The number a node has by now. -/
def current (u : Underlining) (id : ExprId) : Checked (Option UInt32) := do
  return (← u.db.expr id).underline

/-- Changes a node's number. -/
def set (u : Underlining) (id : ExprId) (underline : Option UInt32) : Underlining :=
  { u with db := u.db.setUnderline id underline }

/-- Clears the number of an excluded node; gives one to another node of a unit that misses
something. -/
def visit (missing : Bool) (u : Underlining) (p : Point) : Checked Underlining := do
  let current ← u.current p.site
  if p.excluded then return u.set p.site none
  else if missing && current.isNone then
    let next ← Counter.addOr .underlinesExhausted u.next 1
    return { u with next }.set p.site (some u.next)
  else return u

/-- The first point of each site. -/
def firstPerSite (seen : List ExprId) : List Point → List Point
  | [] => []
  | p :: rest =>
    if seen.contains p.site then firstPerSite seen rest
    else p :: firstPerSite (p.site :: seen) rest

/-- Goes through the points of a scored node or chain. -/
def unit (u : Underlining) (points : List Point) : Checked Underlining :=
  (firstPerSite [] points).foldlM (visit (points.any Point.missing)) u

/-- Numbering that goes on after the highest number among the given nodes. -/
def start (db : Database) (nodes : List ExprId) : Checked Underlining := do
  let numbers := nodes.filterMap fun id => (db.expr? id).bind (·.underline)
  let next ← Counter.addOr .underlinesExhausted (numbers.foldl max 0) 1
  return ⟨db, next⟩

end Underlining

end LogicCoverage
