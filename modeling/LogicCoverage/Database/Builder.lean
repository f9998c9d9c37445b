import LogicCoverage.Attempt
import LogicCoverage.Database

/-!
# Building trees bottom-up

A node may be given to a parent or a statement once. A refused call changes nothing: all checks come
before the first change.
-/

namespace LogicCoverage

inductive BuildError where
  /-- The id was never handed out. -/
  | unknownExpr (id : ExprId)
  /-- A parent or a statement owns the node already. -/
  | alreadyAttached (id : ExprId)
deriving DecidableEq

def BuildError.message : BuildError → String
  | unknownExpr id => "unknown expression " ++ id.text
  | alreadyAttached id => "expression " ++ id.text ++ " is already attached"

/-- A call of the builder reads and changes the database, and may be refused on the way. -/
abbrev Build := Attempt BuildError Database

namespace Build

/-- The node exists and nothing owns it. -/
def checkDetached (id : ExprId) : Build Unit := do
  match (← get).expr? id with
  | none => throw (.unknownExpr id)
  | some e => if e.parent ≠ .detached then throw (.alreadyAttached id)

def allocExpr (e : Expression) : Build ExprId := modifyGet fun db => db.addExpr e

def allocStmt (s : Statement) : Build StmtId := modifyGet fun db => db.addStmt s

/-- Makes a node's owner known to it. -/
def attach (id : ExprId) (owner : Link) : Build Unit :=
  modify fun db => db.modifyExpr id fun e => { e with parent := owner }

/-- Adds a childless node. -/
def leaf (op : Operator) (width line : UInt32) : Build ExprId :=
  allocExpr (.new op width line)

/-- Adds a node with one operand, its left one. -/
def unary (op : Operator) (operand : ExprId) (width line : UInt32) : Build ExprId := do
  checkDetached operand
  let id ← allocExpr { Expression.new op width line with left := some operand }
  attach operand (.expr id)
  return id

/-- Adds a node with two operands. -/
def binary (op : Operator) (left right : ExprId) (width line : UInt32) : Build ExprId := do
  checkDetached left
  checkDetached right
  if left = right then throw (.alreadyAttached right)
  let id ← allocExpr
    { Expression.new op width line with left := some left, right := some right }
  attach left (.expr id)
  attach right (.expr id)
  return id

/-- Adds a statement that owns the tree below a node. -/
def statement (root : ExprId) : Build StmtId := do
  checkDetached root
  let id ← allocStmt ⟨root, false⟩
  attach root (.stmt id)
  return id

end Build

namespace Database

variable (db : Database)

def addLeaf (op : Operator) (width line : UInt32) : ExprId × Database :=
  db.addExpr (.new op width line)

def addUnary (op : Operator) (operand : ExprId) (width line : UInt32) :
    Except BuildError (ExprId × Database) :=
  (Build.unary op operand width line).outcome db

def addBinary (op : Operator) (left right : ExprId) (width line : UInt32) :
    Except BuildError (ExprId × Database) :=
  (Build.binary op left right width line).outcome db

def addStatement (root : ExprId) : Except BuildError (StmtId × Database) :=
  (Build.statement root).outcome db

/-- Changes a node that has to exist. -/
def updateExpr (id : ExprId) (f : Expression → Expression) : Except BuildError Database :=
  match db.expr? id with
  | none => .error (.unknownExpr id)
  | some _ => .ok (db.modifyExpr id f)

end Database

/-! ## Sequences of calls -/

/-- A call of the builder. -/
inductive BuildCall where
  | leaf (op : Operator) (width line : UInt32)
  | unary (op : Operator) (operand : ExprId) (width line : UInt32)
  | binary (op : Operator) (left right : ExprId) (width line : UInt32)
  | statement (root : ExprId)

namespace BuildCall

/-- The nodes that a call gives an owner. -/
def operands : BuildCall → List ExprId
  | leaf _ _ _ => []
  | unary _ operand _ _ => [operand]
  | binary _ left right _ _ => [left, right]
  | statement root => [root]

/-- The call, with the id that it answers. -/
def build : BuildCall → Build (ExprId ⊕ StmtId)
  | leaf op width line => Sum.inl <$> Build.leaf op width line
  | unary op operand width line => Sum.inl <$> Build.unary op operand width line
  | binary op left right width line => Sum.inl <$> Build.binary op left right width line
  | statement root => Sum.inr <$> Build.statement root

end BuildCall

/-- What can be done to a database while it is built. -/
inductive BuildStep where
  | call (call : BuildCall)
  | addScope (scope : Scope)
  | listStatement (scope : ScopeId) (stmt : StmtId)
  | addChildScope (parent child : ScopeId)

/-- What a step leaves, whether or not a call is refused. -/
def BuildStep.on (step : BuildStep) (db : Database) : Checked Database :=
  match step with
  | call c => .ok (c.build.on db).2
  | addScope scope => .ok (db.addScope scope).2
  | listStatement scope stmt => db.listStatement scope stmt
  | addChildScope parent child => db.addChildScope parent child

/-- Takes steps in order. -/
def Database.build (db : Database) (steps : List BuildStep) : Checked Database :=
  steps.foldlM (fun db step => step.on db) db

end LogicCoverage
