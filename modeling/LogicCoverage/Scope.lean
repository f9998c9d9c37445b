import LogicCoverage.Statistic

/-!
# Statements and scopes
-/

namespace LogicCoverage

/-- A statement owns the tree of expressions below its root. -/
structure Statement where
  root : ExprId
  /-- The statement's line counts as run although it never ran. -/
  lineExcluded : Bool
deriving DecidableEq

inductive ScopeKind where
  | moduleScope | taskScope | functionScope | instanceScope
deriving DecidableEq, Inhabited

namespace ScopeKind

def all : List ScopeKind := [moduleScope, taskScope, functionScope, instanceScope]

def name : ScopeKind → String
  | moduleScope => "Module"
  | taskScope => "Task"
  | functionScope => "Function"
  | instanceScope => "Instance"

def ofName? (s : String) : Option ScopeKind := all.find? fun kind => kind.name == s

theorem ofName?_name (kind : ScopeKind) : ofName? kind.name = some kind := by cases kind <;> decide

end ScopeKind

/-- A scope lists statements and the scopes below it in the instance tree. -/
structure Scope where
  name : String
  kind : ScopeKind
  statements : List StmtId
  children : List ScopeId
  /-- The statistic of the last scoring, kept up to date by exclusions. -/
  stat : Statistic
deriving DecidableEq

end LogicCoverage
