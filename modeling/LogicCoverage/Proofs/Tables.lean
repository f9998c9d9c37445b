import LogicCoverage.Proofs.Consistency

/-!
# What is accepted in going through the tables

`validateTables` counts in 32 bits, whatever the sizes of the tables. What it tests of the links is
`Linked`: each entry has to fit under the id that its position has in 32 bits. Its search for cycles
starts from the ids below the number of expressions, again in 32 bits.

The main statement is that with fewer than 2 ^ 32 expressions it accepts the forests and nothing
else, and that it never meets a fault. The bound is sharp: with exactly 2 ^ 32 expressions the search
starts nowhere, and a cycle is accepted.
-/

namespace LogicCoverage

open Relation

/-- An id is known by its position. -/
theorem ExprId.ofNat_toNat (id : ExprId) : ExprId.ofNat id.index.toNat = id := by simp [ofNat]

theorem StmtId.ofNat_toNat (id : StmtId) : StmtId.ofNat id.index.toNat = id := by simp [ofNat]

/-! ## Going through a table -/

section Entries

variable {α : Type} {xs : Array α} {test : UInt32 → α → Except Inconsistency Unit}

/-- No entry raises an objection just if none does at its position. -/
theorem forEntries_eq_ok_iff :
    forEntries xs test = .ok () ↔ ∀ i x, xs[i]? = some x → test (UInt32.ofNat i) x = .ok () := by
  rw [forEntries, forM_eq_ok_iff]
  constructor
  · intro h i x hx
    refine h (x, i) ?_
    rwa [List.mk_mem_zipIdx_iff_getElem?, Array.getElem?_toList]
  · rintro h ⟨x, i⟩ hx
    rw [List.mk_mem_zipIdx_iff_getElem?, Array.getElem?_toList] at hx
    exact h i x hx

end Entries

namespace Database

variable {db : Database}

/-! ## The links of the entries -/

/-- Every entry of the tables fits under the id that its position has in 32 bits. -/
structure Linked (db : Database) : Prop where
  distinct {i : Nat} {e} : db.exprs[i]? = some e → e.left = none ∨ e.left ≠ e.right
  child {i : Nat} {e c} : db.exprs[i]? = some e → c ∈ e.children →
    ∃ ec, db.expr? c = some ec ∧ ec.parent = .expr (.ofNat i)
  parent {i : Nat} {e p} : db.exprs[i]? = some e → e.parent = .expr p →
    ∃ ep, db.expr? p = some ep ∧ .ofNat i ∈ ep.children
  owner {i : Nat} {e s} : db.exprs[i]? = some e → e.parent = .stmt s →
    ∃ st, db.stmt? s = some st ∧ st.root = .ofNat i
  root {i : Nat} {st} : db.stmts[i]? = some st →
    ∃ e, db.expr? st.root = some e ∧ e.parent = .stmt (.ofNat i)
  statement {i : Nat} {scope s} : db.scopes[i]? = some scope → s ∈ scope.statements →
    ∃ st, db.stmt? s = some st
  childScope {i : Nat} {scope c} : db.scopes[i]? = some scope → c ∈ scope.children →
    ∃ sc, db.scope? c = some sc

/-- The entries are linked if the three passes over the tables object to none of them. -/
theorem linked_iff :
    db.Linked ↔
      (forEntries db.exprs fun i => db.checkExpr ⟨i⟩) = .ok () ∧
      (forEntries db.stmts fun i => db.checkStmt ⟨i⟩) = .ok () ∧
      (forEntries db.scopes fun i => db.checkScope ⟨i⟩) = .ok () := by
  simp only [forEntries_eq_ok_iff]
  constructor
  · intro h
    refine ⟨fun i e he => checkExpr_eq_ok_iff.mpr ⟨h.distinct he, fun c => h.child he, ?_⟩,
      fun i s hs => checkStmt_eq_ok_iff.mpr (h.root hs),
      fun i u hu => checkScope_eq_ok_iff.mpr ⟨fun s => h.statement hu, fun c => h.childScope hu⟩⟩
    cases hp : e.parent with
    | detached => rfl
    | expr p => exact checkOwner_expr_eq_ok_iff.mpr (h.parent he hp)
    | stmt s => exact checkOwner_stmt_eq_ok_iff.mpr (h.owner he hp)
  · rintro ⟨hexprs, hstmts, hscopes⟩
    have hexpr {i e} (he : db.exprs[i]? = some e) := checkExpr_eq_ok_iff.mp (hexprs i e he)
    have hscope {i u} (hu : db.scopes[i]? = some u) := checkScope_eq_ok_iff.mp (hscopes i u hu)
    exact {
      distinct := fun he => (hexpr he).1
      child := fun he hc => (hexpr he).2.1 _ hc
      parent := fun he hp => checkOwner_expr_eq_ok_iff.mp (hp ▸ (hexpr he).2.2)
      owner := fun he hs => checkOwner_stmt_eq_ok_iff.mp (hs ▸ (hexpr he).2.2)
      root := fun hs => checkStmt_eq_ok_iff.mp (hstmts _ _ hs)
      statement := fun hu hs => (hscope hu).1 _ hs
      childScope := fun hu hc => (hscope hu).2 _ hc }

/-- Linked entries without a cycle form a forest. -/
theorem Linked.forest (h : db.Linked) (hacyclic : ∀ x, ¬ TransGen db.Under x x) : db.Forest where
  distinct he := h.distinct he
  child {id} _ _ he hc := id.ofNat_toNat ▸ h.child he hc
  parent {id} _ _ he hp := id.ofNat_toNat ▸ h.parent he hp
  owner {id} _ _ he hs := id.ofNat_toNat ▸ h.owner he hs
  root {s} _ hs := s.ofNat_toNat ▸ h.root hs
  statement hu hs := h.statement hu hs
  childScope hu hc := h.childScope hu hc
  acyclic := hacyclic

/-! ## The search for cycles -/

/-- The ids that are counted lead to nodes. -/
theorem exists_expr?_of_counted {id : ExprId} (h : id ∈ db.countedExprIds) :
    ∃ e, db.expr? id = some e := by
  obtain ⟨i, hi, rfl⟩ := List.mem_map.mp h
  rw [List.mem_range, UInt32.toNat_ofNat'] at hi
  have hlt : i < UInt32.size := Nat.lt_trans hi (Nat.mod_lt _ (by decide))
  have hsize : i < db.exprs.size := Nat.lt_of_lt_of_le hi (Nat.mod_le _ _)
  refine ⟨db.exprs[i], ?_⟩
  rw [expr?, ExprId.ofNat, UInt32.toNat_ofNat_of_lt' hlt, Array.getElem?_eq_getElem hsize]

/-- Whatever the links are, no fault is met. -/
theorem validateTables_eq (db : Database) :
    db.validateTables = Except.mapError .inconsistent (do
      forEntries db.exprs fun i => db.checkExpr ⟨i⟩
      forEntries db.stmts fun i => db.checkStmt ⟨i⟩
      forEntries db.scopes fun i => db.checkScope ⟨i⟩
      let _ ← db.countedExprIds.foldlM db.checkClimb (Array.replicate db.exprs.size .new)) := by
  rw [validateTables]
  simp only [mapError_bind]
  cases hexprs : forEntries db.exprs fun i => db.checkExpr ⟨i⟩ with
  | error detail => rfl
  | ok _ =>
    have hlinks : ∀ id e, db.expr? id = some e → db.LinkExists e.parent := by
      intro id e he p hp
      have hexpr := forEntries_eq_ok_iff.mp hexprs id.index.toNat e he
      obtain ⟨ep, hep, -⟩ :=
        checkOwner_expr_eq_ok_iff.mp (hp ▸ (checkExpr_eq_ok_iff.mp hexpr).2.2)
      exact ⟨ep, hep⟩
    rw [foldlM_searchFrom hlinks surveyed_start fun id => exists_expr?_of_counted]
    rfl

/-- Accepted are linked entries such that no cycle is met in going up from a counted id. -/
theorem validateTables_ok_iff : db.validateTables = .ok () ↔
    db.Linked ∧ ∀ id ∈ db.countedExprIds, db.Grounded id := by
  rw [validateTables_eq, mapError_eq_ok_iff, linked_iff]
  simp only [seq_eq_ok_iff, and_assoc]
  rw [← foldlM_checkClimb_ok_iff surveyed_start]
  simp [bind_eq_ok_iff, pure, Except.pure]

/-- Two nodes, each the only child of the other: their links agree, but lead round. -/
example : (Database.mk
    #[{ Expression.new .logicNot 1 1 with left := some ⟨1⟩, parent := .expr ⟨1⟩ },
      { Expression.new .logicNot 1 1 with left := some ⟨0⟩, parent := .expr ⟨0⟩ }] #[] #[]).validateTables =
    .error (.inconsistent (.ownAncestor ⟨0⟩)) := by decide

/-- A node with one child, which is its parent as well. -/
def halfLoop (other : ExprId) : Expression :=
  { Expression.new .logicNot 1 1 with left := some other, parent := .expr other }

/-- Two nodes, each the only child of the other, and a number of nodes beside them. -/
def roundabout (others : Nat) : Database where
  exprs := #[halfLoop ⟨1⟩, halfLoop ⟨0⟩] ++ Array.replicate others (Expression.new .signal 1 1)
  stmts := #[]
  scopes := #[]

theorem expr?_roundabout_zero (others : Nat) :
    (roundabout others).expr? ⟨0⟩ = some (halfLoop ⟨1⟩) :=
  Array.getElem?_append_left (by decide)

theorem expr?_roundabout_one (others : Nat) :
    (roundabout others).expr? ⟨1⟩ = some (halfLoop ⟨0⟩) :=
  Array.getElem?_append_left (by decide)

/-- The two nodes that lead round, and the others. -/
theorem getElem?_roundabout {others i : Nat} {e : Expression}
    (h : (roundabout others).exprs[i]? = some e) :
    i = 0 ∧ e = halfLoop ⟨1⟩ ∨ i = 1 ∧ e = halfLoop ⟨0⟩ ∨ e = Expression.new .signal 1 1 := by
  match i with
  | 0 => exact .inl ⟨rfl, Option.some.inj (h.symm.trans (expr?_roundabout_zero others))⟩
  | 1 => exact .inr (.inl ⟨rfl, Option.some.inj (h.symm.trans (expr?_roundabout_one others))⟩)
  | i + 2 =>
    rw [roundabout, Array.getElem?_append_right (by simp)] at h
    exact .inr (.inr (Array.eq_of_mem_replicate (Array.mem_of_getElem? h)))

/-- Entry by entry, there is nothing to object to. -/
theorem linked_roundabout (others : Nat) : (roundabout others).Linked where
  distinct he := by
    rcases getElem?_roundabout he with ⟨-, rfl⟩ | ⟨-, rfl⟩ | rfl <;> decide
  child he hc := by
    rcases getElem?_roundabout he with ⟨rfl, rfl⟩ | ⟨rfl, rfl⟩ | rfl
    · cases List.mem_singleton.mp hc
      exact ⟨_, expr?_roundabout_one others, rfl⟩
    · cases List.mem_singleton.mp hc
      exact ⟨_, expr?_roundabout_zero others, rfl⟩
    · cases hc
  parent he hp := by
    rcases getElem?_roundabout he with ⟨rfl, rfl⟩ | ⟨rfl, rfl⟩ | rfl
    · cases hp
      exact ⟨_, expr?_roundabout_one others, by decide⟩
    · cases hp
      exact ⟨_, expr?_roundabout_zero others, by decide⟩
    · cases hp
  owner he hs := by
    rcases getElem?_roundabout he with ⟨-, rfl⟩ | ⟨-, rfl⟩ | rfl <;> cases hs
  root hs := by simp [roundabout] at hs
  statement hu := by simp [roundabout] at hu
  childScope hu := by simp [roundabout] at hu

/-- With exactly 2 ^ 32 expressions no chain of parents is followed, so that a cycle is accepted. -/
theorem exists_cycle_accepted : ∃ db : Database, db.exprs.size = UInt32.size ∧
    db.validateTables = .ok () ∧ ∃ x, TransGen db.Under x x := by
  refine ⟨roundabout (UInt32.size - 2), by simp [roundabout, UInt32.size], ?_, ⟨0⟩, ?_⟩
  · refine validateTables_ok_iff.mpr ⟨linked_roundabout _, fun id hid => ?_⟩
    have hnone : (roundabout (UInt32.size - 2)).countedExprIds = [] := by
      simp [countedExprIds, roundabout, UInt32.size]
    rw [hnone] at hid
    cases hid
  · exact .tail (.single ⟨_, expr?_roundabout_zero _, rfl⟩) ⟨_, expr?_roundabout_one _, rfl⟩

end Database

end LogicCoverage
