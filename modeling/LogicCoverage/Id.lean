/-!
# Ids of expressions, statements and scopes

An id is the position of its entity in the database, and is written as a letter and that position.
-/

namespace LogicCoverage

/-- Names an expression. -/
structure ExprId where
  index : UInt32
deriving DecidableEq, Inhabited

/-- Names a statement. -/
structure StmtId where
  index : UInt32
deriving DecidableEq, Inhabited

/-- Names a scope. -/
structure ScopeId where
  index : UInt32
deriving DecidableEq, Inhabited

/-- `e12` -/
def ExprId.text (id : ExprId) : String := "e" ++ id.index.toNat.repr

/-- `s12` -/
def StmtId.text (id : StmtId) : String := "s" ++ id.index.toNat.repr

/-- `u12` -/
def ScopeId.text (id : ScopeId) : String := "u" ++ id.index.toNat.repr

/-- The expression at a position. -/
def ExprId.ofNat (n : Nat) : ExprId := ⟨UInt32.ofNat n⟩

/-- The statement at a position. -/
def StmtId.ofNat (n : Nat) : StmtId := ⟨UInt32.ofNat n⟩

/-- The scope at a position. -/
def ScopeId.ofNat (n : Nat) : ScopeId := ⟨UInt32.ofNat n⟩

theorem ExprId.toNat_index_inj {a b : ExprId} : a.index.toNat = b.index.toNat ↔ a = b := by
  rw [UInt32.toNat_inj, ExprId.mk.injEq]

theorem StmtId.toNat_index_inj {a b : StmtId} : a.index.toNat = b.index.toNat ↔ a = b := by
  rw [UInt32.toNat_inj, StmtId.mk.injEq]

theorem ScopeId.toNat_index_inj {a b : ScopeId} : a.index.toNat = b.index.toNat ↔ a = b := by
  rw [UInt32.toNat_inj, ScopeId.mk.injEq]

end LogicCoverage
