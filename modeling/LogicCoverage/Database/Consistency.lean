import LogicCoverage.Database

/-!
# Consistency of the links

A database is consistent when every id in it names an entity, parents and children agree on each
other, so do statements and their roots, and no expression is its own ancestor. `check` finds the
first inconsistency.
-/

namespace LogicCoverage

/-- How links fail to fit together. -/
inductive Inconsistency where
  | sameChildTwice (id : ExprId)
  | missingChild (id child : ExprId)
  | childLinksElsewhere (child id : ExprId)
  | parentLacksChild (id parent : ExprId)
  | statementLacksRoot (id : ExprId) (stmt : StmtId)
  | missingRoot (stmt : StmtId) (root : ExprId)
  | rootLinksElsewhere (root : ExprId) (stmt : StmtId)
  | missingStatement (scope : ScopeId) (stmt : StmtId)
  | missingChildScope (scope child : ScopeId)
  | ownAncestor (id : ExprId)
deriving DecidableEq

def Inconsistency.message : Inconsistency → String
  | sameChildTwice id => id.text ++ " uses the same child twice"
  | missingChild id child => id.text ++ " names missing child " ++ child.text
  | childLinksElsewhere child id => child.text ++ " is a child of " ++ id.text ++ " but links elsewhere"
  | parentLacksChild id parent =>
    id.text ++ " links to parent " ++ parent.text ++ ", which does not hold it"
  | statementLacksRoot id stmt =>
    id.text ++ " links to statement " ++ stmt.text ++ ", which is not rooted at it"
  | missingRoot stmt root => stmt.text ++ " names missing root " ++ root.text
  | rootLinksElsewhere root stmt => "root " ++ root.text ++ " of " ++ stmt.text ++ " does not link back to it"
  | missingStatement scope stmt => "scope " ++ scope.text ++ " lists missing statement " ++ stmt.text
  | missingChildScope scope child =>
    "scope " ++ scope.text ++ " lists missing child scope " ++ child.text
  | ownAncestor id => id.text ++ " is its own ancestor"

/-- Passes unless there is something to object to. -/
def unless? (condition : Bool) (objection : Inconsistency) : Except Inconsistency Unit :=
  if condition then .ok () else .error objection

namespace Database

variable (db : Database)

/-- The child exists and links back. -/
def checkChild (id child : ExprId) : Except Inconsistency Unit :=
  match db.expr? child with
  | none => .error (.missingChild id child)
  | some c => unless? (c.parent = .expr id) (.childLinksElsewhere child id)

/-- The owner exists and holds the node. -/
def checkOwner (id : ExprId) : Link → Except Inconsistency Unit
  | .detached => .ok ()
  | .expr parent =>
    unless? ((db.expr? parent).any fun p => p.left = some id || p.right = some id)
      (.parentLacksChild id parent)
  | .stmt stmt =>
    unless? ((db.stmt? stmt).any fun s => s.root = id) (.statementLacksRoot id stmt)

def checkExpr (id : ExprId) (e : Expression) : Except Inconsistency Unit := do
  unless? (e.left.isNone || e.left ≠ e.right) (.sameChildTwice id)
  e.children.forM (db.checkChild id)
  db.checkOwner id e.parent

/-- The root exists and links back. -/
def checkStmt (id : StmtId) (s : Statement) : Except Inconsistency Unit :=
  match db.expr? s.root with
  | none => .error (.missingRoot id s.root)
  | some root => unless? (root.parent = .stmt id) (.rootLinksElsewhere s.root id)

/-- Everything listed exists. -/
def checkScope (id : ScopeId) (s : Scope) : Except Inconsistency Unit := do
  s.statements.forM fun stmt => unless? (db.stmt? stmt).isSome (.missingStatement id stmt)
  s.children.forM fun child => unless? (db.scope? child).isSome (.missingChildScope id child)

/-- How far a node has come in the search for cycles. -/
inductive Visit where
  | new | onPath | done
deriving DecidableEq

/-- Climbs from a node, marking what it meets, to a node known to lead to the top. -/
def climbPath : Nat → Array Visit → List ExprId → Link → Except Inconsistency (Array Visit × List ExprId)
  | fuel, visits, path, .expr id =>
    match visits[id.index.toNat]? with
    | some .new =>
      match fuel, db.expr? id with
      | fuel + 1, some e =>
        climbPath fuel (visits.setIfInBounds id.index.toNat .onPath) (id :: path) e.parent
      | _, _ => .ok (visits, path)
    | some .onPath => .error (.ownAncestor id)
    | _ => .ok (visits, path)
  | _, visits, path, _ => .ok (visits, path)

/-- Climbs from one node; afterwards every node on the way is known to lead to the top. -/
def checkClimb (visits : Array Visit) (start : ExprId) : Except Inconsistency (Array Visit) := do
  let (visits, path) ← db.climbPath db.exprs.size visits [] (.expr start)
  return path.foldl (fun visits id => visits.setIfInBounds id.index.toNat .done) visits

/-- No expression is its own ancestor. -/
def checkAcyclic : Except Inconsistency Unit := do
  let _ ← db.exprIds.foldlM db.checkClimb (Array.replicate db.exprs.size .new)

/-- The first inconsistency, if any. -/
def check : Except Inconsistency Unit := do
  db.exprIds.forM fun id => (db.expr? id).forM (db.checkExpr id)
  db.stmtIds.forM fun id => (db.stmt? id).forM (db.checkStmt id)
  db.scopeIds.forM fun id => (db.scope? id).forM (db.checkScope id)
  db.checkAcyclic

end Database

/-! ## The check with its look-ups

`climbPath` ends at a position that does not exist, and when its fuel is used up. In `validate` every
position that is read has to exist and every climb has to come to an end; a fault tells where one
does not. -/

/-- Why a database is not accepted: its links do not fit together, or the check met a fault. -/
inductive Rejection where
  | inconsistent (detail : Inconsistency)
  | fault (fault : Fault)
deriving DecidableEq

namespace Database

variable (db : Database)

/-- Climbs from a node, marking what it meets, to a node known to lead to the top. -/
def climbFrom : Nat → Array Visit → List ExprId → Option ExprId →
    Except Rejection (Array Visit × List ExprId)
  | _, visits, path, none => .ok (visits, path)
  | 0, _, _, some _ => .error (.fault .endlessLinks)
  | fuel + 1, visits, path, some id => do
    match ← (entry visits id.index).mapError .fault with
    | .done => return (visits, path)
    | .onPath => .error (.inconsistent (.ownAncestor id))
    | .new =>
      let e ← (db.expr id).mapError .fault
      climbFrom fuel (visits.setIfInBounds id.index.toNat .onPath) (id :: path) e.parentExpr?

/-- Marks a node that leads to the top. -/
def markDone (visits : Array Visit) (id : ExprId) : Except Rejection (Array Visit) := do
  let _ ← (entry visits id.index).mapError .fault
  return visits.setIfInBounds id.index.toNat .done

/-- Climbs from one node; afterwards every node on the way is known to lead to the top. -/
def searchFrom (visits : Array Visit) (start : ExprId) : Except Rejection (Array Visit) := do
  let (visits, path) ← db.climbFrom (db.exprs.size + 1) visits [] (some start)
  path.foldlM markDone visits

/-- The first inconsistency or fault, if any. -/
def validate : Except Rejection Unit := do
  (db.exprIds.forM fun id => (db.expr? id).forM (db.checkExpr id)).mapError .inconsistent
  (db.stmtIds.forM fun id => (db.stmt? id).forM (db.checkStmt id)).mapError .inconsistent
  (db.scopeIds.forM fun id => (db.scope? id).forM (db.checkScope id)).mapError .inconsistent
  let _ ← db.exprIds.foldlM db.searchFrom (Array.replicate db.exprs.size .new)

end Database

/-! ## The check with 32-bit counting

`check` and `validate` visit the ids that name an entity. `validateTables` goes through each table
from end to end and counts in 32 bits, as ids do: an entry from 2 ^ 32 on is taken for the one whose
id it shares, and the search for cycles starts from as many ids as the size of the table leaves
modulo 2 ^ 32, which are none at all if there are exactly 2 ^ 32 expressions. -/

/-- Tests each entry of a table, under its position in 32 bits. -/
def forEntries {α : Type} (xs : Array α) (test : UInt32 → α → Except Inconsistency Unit) :
    Except Inconsistency Unit :=
  xs.toList.zipIdx.forM fun (x, i) => test (UInt32.ofNat i) x

namespace Database

variable (db : Database)

/-- The ids below the number of expressions, which is counted in 32 bits. -/
def countedExprIds : List ExprId :=
  (List.range (UInt32.ofNat db.exprs.size).toNat).map ExprId.ofNat

/-- The first inconsistency or fault that is met in going through the tables, if any. -/
def validateTables : Except Rejection Unit := do
  (forEntries db.exprs fun i => db.checkExpr ⟨i⟩).mapError .inconsistent
  (forEntries db.stmts fun i => db.checkStmt ⟨i⟩).mapError .inconsistent
  (forEntries db.scopes fun i => db.checkScope ⟨i⟩).mapError .inconsistent
  let _ ← db.countedExprIds.foldlM db.searchFrom (Array.replicate db.exprs.size .new)

end Database

end LogicCoverage
