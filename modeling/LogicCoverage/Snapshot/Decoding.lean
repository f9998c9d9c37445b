import LogicCoverage.Database
import LogicCoverage.Json.Record

/-!
# Databases from JSON values
-/

namespace LogicCoverage.Snapshot

open Json

def mask? (j : Json) : Option BitMask := do
  match ← record? [("width", .required), ("words", .required)] j with
  | [width, words] => return ⟨← given? uint32? width, (← given? (list? uint64?) words).toArray⟩
  | _ => none

def history? (j : Json) : Option BitHistory := do
  match ← record? [("was_true", .required), ("was_false", .required), ("eval00", .required),
    ("eval01", .required), ("eval10", .required), ("eval11", .required)] j with
  | [wasTrue, wasFalse, eval00, eval01, eval10, eval11] =>
    return {
      wasTrue := ← given? mask? wasTrue
      wasFalse := ← given? mask? wasFalse
      eval00 := ← given? mask? eval00
      eval01 := ← given? mask? eval01
      eval10 := ← given? mask? eval10
      eval11 := ← given? mask? eval11 }
  | _ => none

def exprId? (j : Json) : Option ExprId := (uint32? j).map ExprId.mk

def stmtId? (j : Json) : Option StmtId := (uint32? j).map StmtId.mk

def scopeId? (j : Json) : Option ScopeId := (uint32? j).map ScopeId.mk

def link? : Json → Option Link
  | .obj [(some "Expr", v)] => (exprId? v).map .expr
  | .obj [(some "Stmt", v)] => (stmtId? v).map .stmt
  | j => do if (← name? j) = "Detached" then return .detached else none

def operator? (j : Json) : Option Operator := (name? j).bind Operator.ofName?

def scopeKind? (j : Json) : Option ScopeKind := (name? j).bind ScopeKind.ofName?

def expression? (j : Json) : Option Expression := do
  match ← record? [("op", .required), ("left", .nullable), ("right", .nullable),
    ("parent", .required), ("width", .required), ("line", .required), ("exec_count", .required),
    ("lhs", .defaulted), ("was_true", .required), ("was_false", .required),
    ("eval00", .required), ("eval01", .required), ("eval10", .required), ("eval11", .required),
    ("bits", .defaulted), ("excluded", .defaulted), ("underline_id", .defaulted)] j with
  | [op, left, right, parent, width, line, execCount, lhs, wasTrue, wasFalse,
      eval00, eval01, eval10, eval11, history, excluded, underline] =>
    return {
      op := ← given? operator? op
      left := ← given? (nullable? exprId?) left
      right := ← given? (nullable? exprId?) right
      parent := ← given? link? parent
      width := ← given? uint32? width
      line := ← given? uint32? line
      execCount := ← given? uint32? execCount
      lhs := ← givenOr? false bool? lhs
      wasTrue := ← given? bool? wasTrue
      wasFalse := ← given? bool? wasFalse
      eval00 := ← given? bool? eval00
      eval01 := ← given? bool? eval01
      eval10 := ← given? bool? eval10
      eval11 := ← given? bool? eval11
      history := ← givenOr? none (nullable? history?) history
      excluded := ← givenOr? false bool? excluded
      underline := ← givenOr? none (nullable? uint32?) underline }
  | _ => none

def statement? (j : Json) : Option Statement := do
  match ← record? [("root", .required), ("line_excluded", .defaulted)] j with
  | [root, lineExcluded] => return ⟨← given? exprId? root, ← givenOr? false bool? lineExcluded⟩
  | _ => none

def statistic? (j : Json) : Option Statistic := do
  match ← record? [("comb_hit", .required), ("comb_total", .required), ("comb_excluded", .required),
    ("line_hit", .required), ("line_total", .required), ("line_excluded", .required)] j with
  | [combHit, combTotal, combExcluded, lineHit, lineTotal, lineExcluded] =>
    return {
      combHit := ← given? uint32? combHit
      combTotal := ← given? uint32? combTotal
      combExcluded := ← given? uint32? combExcluded
      lineHit := ← given? uint32? lineHit
      lineTotal := ← given? uint32? lineTotal
      lineExcluded := ← given? uint32? lineExcluded }
  | _ => none

def scope? (j : Json) : Option Scope := do
  match ← record? [("name", .required), ("kind", .required), ("statements", .required),
    ("children", .defaulted), ("stat", .defaulted)] j with
  | [name, kind, statements, children, stat] =>
    return {
      name := ← given? string? name
      kind := ← given? scopeKind? kind
      statements := ← given? (list? stmtId?) statements
      children := ← givenOr? [] (list? scopeId?) children
      stat := ← givenOr? .zero statistic? stat }
  | _ => none

def database? (j : Json) : Option Database := do
  match ← record? [("exprs", .required), ("stmts", .required), ("scopes", .required)] j with
  | [exprs, stmts, scopes] =>
    return {
      exprs := (← given? (list? expression?) exprs).toArray
      stmts := (← given? (list? statement?) stmts).toArray
      scopes := (← given? (list? scope?) scopes).toArray }
  | _ => none

end LogicCoverage.Snapshot
