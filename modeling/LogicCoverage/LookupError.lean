import LogicCoverage.Fault

/-!
# Requests that name something absent

Such a request is refused before anything has changed.
-/

namespace LogicCoverage

inductive LookupError where
  | scopeNotFound (scope : ScopeId)
  | scopeNameNotFound (name : String)
  | exprNotFound (expr : ExprId)
  /-- No statement of the scope contains the expression. -/
  | exprNotInScope (expr : ExprId) (scope : ScopeId)
  /-- No node below the expression carries the number. -/
  | underlineNotFound (expr : ExprId) (underline : UInt32)
deriving DecidableEq

def LookupError.message : LookupError → String
  | scopeNotFound scope => "scope " ++ scope.text ++ " not found"
  | scopeNameNotFound name => "scope '" ++ name ++ "' not found"
  | exprNotFound expr => "expression " ++ expr.text ++ " not found"
  | exprNotInScope expr scope => "expression " ++ expr.text ++ " is not part of scope " ++ scope.text
  | underlineNotFound expr underline =>
    "expression " ++ expr.text ++ " has no sub-expression with underline id " ++
      underline.toNat.repr

/-- Why a request was not carried out. -/
inductive Refusal where
  | lookup (error : LookupError)
  | fault (fault : Fault)
deriving DecidableEq

/-- A request that may be refused. -/
abbrev Request (α : Type) : Type := Except Refusal α

/-- A computation whose faults end the request that needs it. -/
def Checked.request {α : Type} (x : Checked α) : Request α := x.mapError .fault

/-- What a look-up found, or the reason why it had to succeed. -/
def found {α : Type} (x : Option α) (error : LookupError) : Request α :=
  match x with
  | some a => .ok a
  | none => .error (.lookup error)

end LogicCoverage
