import LogicCoverage.Snapshot.Text
import LogicCoverage.Proofs.Consistency
import LogicCoverage.Proofs.Json.Record
import LogicCoverage.Proofs.Json.RoundTrip

/-!
# Snapshots are read back

Each part of a database is written faithfully, so its text is read as the same database, whatever its
names, counters, histories and links are. What is read back is then checked.
-/

namespace LogicCoverage.Snapshot

open Json

/-- Numbers of 32 bits are read back. -/
theorem faithful_uint32 : Faithful ofUInt32 uint32? where
  plain n := .nat n.toNat
  read_write n := by rw [ofUInt32, uint32?, if_pos n.toNat_lt, UInt32.ofNat_toNat]

theorem faithful_exprId : Faithful ofExprId exprId? :=
  faithful_uint32.map ExprId.index ExprId.mk fun _ => rfl

theorem faithful_stmtId : Faithful ofStmtId stmtId? :=
  faithful_uint32.map StmtId.index StmtId.mk fun _ => rfl

theorem faithful_scopeId : Faithful ofScopeId scopeId? :=
  faithful_uint32.map ScopeId.index ScopeId.mk fun _ => rfl

theorem faithful_operator : Faithful (fun op => .string op.name) operator? where
  plain op := .string op.name
  read_write := Operator.ofName?_name

theorem faithful_scopeKind : Faithful (fun kind => .string kind.name) scopeKind? where
  plain kind := .string kind.name
  read_write := ScopeKind.ofName?_name

/-- Something is told from nothing as long as it is not written as null. -/
theorem faithful_nullable {α : Type} {write : α → Json} {read : Json → Option α}
    (h : Faithful write read) (hnull : read .null = none) :
    Faithful (ofNullable write) (nullable? read) where
  plain
    | none => .null
    | some a => h.plain a
  read_write
    | none => rfl
    | some a => by
      have hread := h.read_write a
      have hne : write a ≠ .null := by
        intro heq
        rw [heq, hnull] at hread
        cases hread
      rw [ofNullable, nullable?, hread, Option.map_some]
      exact hne

/-- Each of the three kinds of link is read back. -/
theorem faithful_link : Faithful ofLink link? where
  plain
    | .detached => .string "Detached"
    | .expr id => .obj (by simpa using faithful_exprId.plain id)
    | .stmt id => .obj (by simpa using faithful_stmtId.plain id)
  read_write
    | .detached => by decide
    | .expr id => by
      rw [ofLink, object, List.map_singleton, link?, faithful_exprId.read_write]
      rfl
    | .stmt id => by
      rw [ofLink, object, List.map_singleton, link?, faithful_stmtId.read_write]
      rfl

/-- Masks are read back, words and all. -/
theorem faithful_mask : Faithful ofMask mask? where
  plain m := .obj (by simp [faithful_uint32.plain, Faithful.uint64.list.plain])
  read_write m := by
    rw [mask?, ofMask, record?_object (by simp) (by simp [List.lookup_cons])]
    simp [given?, faithful_uint32.read_write, Faithful.uint64.list.read_write, List.lookup_cons]

theorem faithful_history : Faithful ofHistory history? where
  plain h := .obj (by simp [faithful_mask.plain])
  read_write h := by
    rw [history?, ofHistory, record?_object (by simp) (by simp [List.lookup_cons])]
    simp [given?, faithful_mask.read_write, List.lookup_cons]

theorem faithful_statement : Faithful ofStatement statement? where
  plain s := .obj (by simp [faithful_exprId.plain, Faithful.bool.plain])
  read_write s := by
    rw [statement?, ofStatement, record?_object (by simp) (by simp [List.lookup_cons])]
    simp [given?, givenOr?, faithful_exprId.read_write, Faithful.bool.read_write, List.lookup_cons]

theorem faithful_statistic : Faithful ofStatistic statistic? where
  plain s := .obj (by simp [faithful_uint32.plain])
  read_write s := by
    rw [statistic?, ofStatistic, record?_object (by simp) (by simp [List.lookup_cons])]
    simp [given?, faithful_uint32.read_write, List.lookup_cons]

theorem faithful_scope : Faithful ofScope scope? where
  plain s := .obj (by
    simp [Faithful.string.plain, faithful_stmtId.list.plain, faithful_scopeId.list.plain,
      faithful_statistic.plain])
  read_write s := by
    rw [scope?, ofScope, record?_object (by simp) (by simp [List.lookup_cons])]
    simp [given?, givenOr?, Faithful.string.read_write, faithful_scopeKind.read_write,
      faithful_stmtId.list.read_write, faithful_scopeId.list.read_write,
      faithful_statistic.read_write, List.lookup_cons]

/-- A field that is there is read. -/
theorem given?_some {α : Type} (read : Json → Option α) (v : Json) :
    given? read (some v) = read v := rfl

theorem givenOr?_some {α : Type} (default : α) (read : Json → Option α) (v : Json) :
    givenOr? default read (some v) = read v := rfl

/-- A member that was left out stands for nothing. -/
theorem givenOr?_none {α : Type} {write : α → Json} {read : Json → Option α}
    (h : Faithful (ofNullable write) (nullable? read)) (o : Option α) :
    givenOr? none (nullable? read) (o.map write) = some o := by
  cases o with
  | none => rfl
  | some a => exact h.read_write (some a)

/-- The fields of a written node; its history and its number may be left out. -/
theorem record?_ofExpression (e : Expression) :
    record? [("op", .required), ("left", .nullable), ("right", .nullable),
      ("parent", .required), ("width", .required), ("line", .required), ("exec_count", .required),
      ("lhs", .defaulted), ("was_true", .required), ("was_false", .required),
      ("eval00", .required), ("eval01", .required), ("eval10", .required), ("eval11", .required),
      ("bits", .defaulted), ("excluded", .defaulted), ("underline_id", .defaulted)]
      (ofExpression e) =
    some [some (.string e.op.name), some (ofNullable ofExprId e.left),
      some (ofNullable ofExprId e.right), some (ofLink e.parent), some (ofUInt32 e.width),
      some (ofUInt32 e.line), some (ofUInt32 e.execCount), some (.bool e.lhs),
      some (.bool e.wasTrue), some (.bool e.wasFalse), some (.bool e.eval00),
      some (.bool e.eval01), some (.bool e.eval10), some (.bool e.eval11),
      e.history.map ofHistory, some (.bool e.excluded), e.underline.map ofUInt32] := by
  obtain ⟨op, left, right, parent, width, line, execCount, lhs, wasTrue, wasFalse, eval00, eval01,
    eval10, eval11, history, excluded, underline⟩ := e
  rw [ofExpression]
  cases history <;> cases underline
  all_goals
    rw [record?_object (by simp [optionalMember]) (by simp [List.lookup_cons, optionalMember])]
    rfl

/-- Expressions are read back, field by field; no field is left out. -/
theorem faithful_expression : Faithful ofExpression expression? where
  plain e := .obj (by
    have hchild := faithful_nullable faithful_exprId rfl
    cases e.history <;> cases e.underline <;>
      simp [optionalMember, Faithful.string.plain, Faithful.bool.plain, faithful_uint32.plain,
        hchild.plain, faithful_link.plain, faithful_history.plain])
  read_write e := by
    have hchild := faithful_nullable faithful_exprId rfl
    have hhistory := faithful_nullable faithful_history rfl
    have hunderline := faithful_nullable faithful_uint32 rfl
    rw [expression?, record?_ofExpression, Option.bind_eq_bind, Option.bind_some]
    simp only [given?_some, givenOr?_some, givenOr?_none hhistory, givenOr?_none hunderline,
      faithful_operator.read_write, hchild.read_write, faithful_link.read_write,
      faithful_uint32.read_write, Faithful.bool.read_write]
    rfl

theorem faithful_database : Faithful ofDatabase database? where
  plain db := .obj (by
    simp [faithful_expression.list.plain, faithful_statement.list.plain, faithful_scope.list.plain])
  read_write db := by
    rw [database?, ofDatabase, record?_object (by simp) (by simp [List.lookup_cons])]
    simp [given?, faithful_expression.list.read_write, faithful_statement.list.read_write,
      faithful_scope.list.read_write, List.lookup_cons]

/-- The text of a database is that of a value which holds the database. -/
theorem parse?_write (db : Database) : (Json.parse? (write db)).bind database? = some db := by
  rw [write, parse?_pretty (faithful_database.plain db)]
  exact faithful_database.read_write db

/-- A text is a snapshot if it holds a database that passes the check. -/
theorem read_eq_ok_iff {text : String} {db : Database} :
    read text = .ok db ↔ (Json.parse? text).bind database? = some db ∧ db.check = .ok () := by
  rw [read, ofJson]
  cases (Json.parse? text).bind database? with
  | none => exact ⟨nofun, nofun⟩
  | some found =>
    dsimp only
    cases hcheck : found.check with
    | ok _ =>
      constructor
      · rintro h
        cases h
        exact ⟨rfl, hcheck⟩
      · rintro ⟨h, -⟩
        cases h
        rfl
    | error detail =>
      refine ⟨nofun, ?_⟩
      rintro ⟨h, h'⟩
      cases h
      cases hcheck.symm.trans h'

/-- A database is read back as it was if the check accepts it, and else its text is refused for the
inconsistency that the check finds; the check comes to an end without a fault. -/
theorem read_write (db : Database) :
    (db.validate = .ok () ∧ read (write db) = .ok db) ∨
      ∃ detail, db.validate = .error (.inconsistent detail) ∧
        read (write db) = .error (.inconsistent detail) := by
  simp only [read, ofJson, parse?_write, db.validate_eq]
  cases db.check with
  | ok _ => exact .inl ⟨rfl, rfl⟩
  | error detail => exact .inr ⟨detail, rfl, rfl⟩

end LogicCoverage.Snapshot
