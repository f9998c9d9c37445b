import LogicCoverage.Expression
import LogicCoverage.Scope

/-!
# The coverage database

Expressions, statements and scopes stand in the order in which they were added and are never
removed, so an id that was handed out names its entity for good. Links hold ids. `expr?` and its
like look an id up; `expr` and its like are for ids that have to exist.
-/

namespace LogicCoverage

structure Database where
  exprs : Array Expression
  stmts : Array Statement
  scopes : Array Scope
deriving DecidableEq

/-- The entry at a position that has to exist. -/
def entry {α : Type} (xs : Array α) (i : UInt32) : Checked α :=
  match xs[i.toNat]? with
  | some x => .ok x
  | none => .error (.noSuchEntity xs.size i.toNat)

/-- An entry is found just if the index is within the table. -/
theorem entry_eq_ok_iff {α : Type} {xs : Array α} {i : UInt32} {x : α} :
    entry xs i = .ok x ↔ xs[i.toNat]? = some x := by
  unfold entry
  split <;> rename_i h <;> simp [h]

namespace Database

def empty : Database := ⟨#[], #[], #[]⟩

instance : Inhabited Database := ⟨empty⟩

variable (db : Database)

def expr? (id : ExprId) : Option Expression := db.exprs[id.index.toNat]?

def stmt? (id : StmtId) : Option Statement := db.stmts[id.index.toNat]?

def scope? (id : ScopeId) : Option Scope := db.scopes[id.index.toNat]?

def expr (id : ExprId) : Checked Expression := entry db.exprs id.index

def stmt (id : StmtId) : Checked Statement := entry db.stmts id.index

def scope (id : ScopeId) : Checked Scope := entry db.scopes id.index

theorem expr_eq_ok_iff {id : ExprId} {e : Expression} : db.expr id = .ok e ↔ db.expr? id = some e :=
  entry_eq_ok_iff

theorem stmt_eq_ok_iff {id : StmtId} {s : Statement} : db.stmt id = .ok s ↔ db.stmt? id = some s :=
  entry_eq_ok_iff

theorem scope_eq_ok_iff {id : ScopeId} {s : Scope} : db.scope id = .ok s ↔ db.scope? id = some s :=
  entry_eq_ok_iff

/-- The positions of a table that an id can name. An entry from 2 ^ 32 on has no id of its own. -/
def positions {α : Type} (xs : Array α) : List Nat := List.range (min xs.size UInt32.size)

/-- All ids, in order. -/
def exprIds : List ExprId := (positions db.exprs).map ExprId.ofNat

def stmtIds : List StmtId := (positions db.stmts).map StmtId.ofNat

def scopeIds : List ScopeId := (positions db.scopes).map ScopeId.ofNat

/-- Changes the node with that id, if there is one. -/
def modifyExpr (id : ExprId) (f : Expression → Expression) : Database :=
  { db with exprs := db.exprs.modify id.index.toNat f }

def modifyStmt (id : StmtId) (f : Statement → Statement) : Database :=
  { db with stmts := db.stmts.modify id.index.toNat f }

def modifyScope (id : ScopeId) (f : Scope → Scope) : Database :=
  { db with scopes := db.scopes.modify id.index.toNat f }

/-- One node is modified. -/
theorem expr?_modifyExpr (id : ExprId) (f : Expression → Expression) (other : ExprId) :
    (db.modifyExpr id f).expr? other =
      if other = id then (db.expr? other).map f else db.expr? other := by
  simp only [expr?, modifyExpr, Array.getElem?_modify, ExprId.toNat_index_inj, eq_comm]

@[simp] theorem stmt?_modifyExpr (id : ExprId) (f : Expression → Expression) (stmt : StmtId) :
    (db.modifyExpr id f).stmt? stmt = db.stmt? stmt := rfl

@[simp] theorem scope?_modifyExpr (id : ExprId) (f : Expression → Expression) (scope : ScopeId) :
    (db.modifyExpr id f).scope? scope = db.scope? scope := rfl

@[simp] theorem size_exprs_modifyExpr (id : ExprId) (f : Expression → Expression) :
    (db.modifyExpr id f).exprs.size = db.exprs.size := by simp [modifyExpr]

/-- One statement is modified. -/
theorem stmt?_modifyStmt (id : StmtId) (f : Statement → Statement) (other : StmtId) :
    (db.modifyStmt id f).stmt? other =
      if other = id then (db.stmt? other).map f else db.stmt? other := by
  simp only [stmt?, modifyStmt, Array.getElem?_modify, StmtId.toNat_index_inj, eq_comm]

@[simp] theorem expr?_modifyStmt (id : StmtId) (f : Statement → Statement) (expr : ExprId) :
    (db.modifyStmt id f).expr? expr = db.expr? expr := rfl

@[simp] theorem scope?_modifyStmt (id : StmtId) (f : Statement → Statement) (scope : ScopeId) :
    (db.modifyStmt id f).scope? scope = db.scope? scope := rfl

/-- One scope is modified. -/
theorem scope?_modifyScope (id : ScopeId) (f : Scope → Scope) (other : ScopeId) :
    (db.modifyScope id f).scope? other =
      if other = id then (db.scope? other).map f else db.scope? other := by
  simp only [scope?, modifyScope, Array.getElem?_modify, ScopeId.toNat_index_inj, eq_comm]

@[simp] theorem expr?_modifyScope (id : ScopeId) (f : Scope → Scope) (expr : ExprId) :
    (db.modifyScope id f).expr? expr = db.expr? expr := rfl

@[simp] theorem stmt?_modifyScope (id : ScopeId) (f : Scope → Scope) (stmt : StmtId) :
    (db.modifyScope id f).stmt? stmt = db.stmt? stmt := rfl

/-- Appends an entity and hands out its id; likewise below. -/
def addExpr (e : Expression) : ExprId × Database :=
  (ExprId.ofNat db.exprs.size, { db with exprs := db.exprs.push e })

def addStmt (s : Statement) : StmtId × Database :=
  (StmtId.ofNat db.stmts.size, { db with stmts := db.stmts.push s })

def addScope (s : Scope) : ScopeId × Database :=
  (ScopeId.ofNat db.scopes.size, { db with scopes := db.scopes.push s })

/-- Lists a statement as part of a scope. -/
def listStatement (scope : ScopeId) (stmt : StmtId) : Checked Database := do
  let _ ← db.scope scope
  return db.modifyScope scope fun s => { s with statements := s.statements ++ [stmt] }

/-- Puts a scope below another in the instance tree. -/
def addChildScope (parent child : ScopeId) : Checked Database := do
  let _ ← db.scope parent
  return db.modifyScope parent fun s => { s with children := s.children ++ [child] }

/-- The first scope of that name. -/
def findScope? (name : String) : Option ScopeId :=
  db.scopeIds.find? fun id => (db.scope? id).any fun s => s.name == name

/-- The scopes that list a statement, in order. -/
def scopesListing (stmt : StmtId) : List ScopeId :=
  db.scopeIds.filter fun id => (db.scope? id).any fun s => s.statements.contains stmt

end Database

end LogicCoverage
