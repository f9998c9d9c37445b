import LogicCoverage.Database
import LogicCoverage.Json.Value

/-!
# Databases as JSON values
-/

namespace LogicCoverage.Snapshot

def ofUInt32 (n : UInt32) : Json := .nat n.toNat

def ofNullable {α : Type} (write : α → Json) : Option α → Json
  | none => .null
  | some a => write a

/-- A member that is left out when there is nothing to say. -/
def optionalMember {α : Type} (key : String) (write : α → Json) : Option α → List (String × Json)
  | none => []
  | some a => [(key, write a)]

def ofMask (m : BitMask) : Json :=
  .object [("width", ofUInt32 m.width), ("words", .arr (m.words.toList.map fun w => .nat w.toNat))]

def ofHistory (h : BitHistory) : Json :=
  .object [("was_true", ofMask h.wasTrue), ("was_false", ofMask h.wasFalse),
    ("eval00", ofMask h.eval00), ("eval01", ofMask h.eval01),
    ("eval10", ofMask h.eval10), ("eval11", ofMask h.eval11)]

def ofExprId (id : ExprId) : Json := ofUInt32 id.index

def ofStmtId (id : StmtId) : Json := ofUInt32 id.index

def ofScopeId (id : ScopeId) : Json := ofUInt32 id.index

def ofLink : Link → Json
  | .detached => .string "Detached"
  | .expr id => .object [("Expr", ofExprId id)]
  | .stmt id => .object [("Stmt", ofStmtId id)]

def ofExpression (e : Expression) : Json :=
  .object <|
    [("op", .string e.op.name), ("left", ofNullable ofExprId e.left),
      ("right", ofNullable ofExprId e.right), ("parent", ofLink e.parent),
      ("width", ofUInt32 e.width), ("line", ofUInt32 e.line),
      ("exec_count", ofUInt32 e.execCount), ("lhs", .bool e.lhs),
      ("was_true", .bool e.wasTrue), ("was_false", .bool e.wasFalse),
      ("eval00", .bool e.eval00), ("eval01", .bool e.eval01),
      ("eval10", .bool e.eval10), ("eval11", .bool e.eval11)] ++
    optionalMember "bits" ofHistory e.history ++
    [("excluded", .bool e.excluded)] ++
    optionalMember "underline_id" ofUInt32 e.underline

def ofStatement (s : Statement) : Json :=
  .object [("root", ofExprId s.root), ("line_excluded", .bool s.lineExcluded)]

def ofStatistic (s : Statistic) : Json :=
  .object [("comb_hit", ofUInt32 s.combHit), ("comb_total", ofUInt32 s.combTotal),
    ("comb_excluded", ofUInt32 s.combExcluded), ("line_hit", ofUInt32 s.lineHit),
    ("line_total", ofUInt32 s.lineTotal), ("line_excluded", ofUInt32 s.lineExcluded)]

def ofScope (s : Scope) : Json :=
  .object [("name", .string s.name), ("kind", .string s.kind.name),
    ("statements", .arr (s.statements.map ofStmtId)),
    ("children", .arr (s.children.map ofScopeId)), ("stat", ofStatistic s.stat)]

def ofDatabase (db : Database) : Json :=
  .object [("exprs", .arr (db.exprs.toList.map ofExpression)),
    ("stmts", .arr (db.stmts.toList.map ofStatement)),
    ("scopes", .arr (db.scopes.toList.map ofScope))]

end LogicCoverage.Snapshot
