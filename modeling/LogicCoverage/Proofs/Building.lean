import LogicCoverage.Database.Builder
import LogicCoverage.Proofs.Consistency

/-!
# Building keeps the forest

A call of the builder is accepted if its operands are distinct nodes without an owner. It then adds
one node or statement above them; this closes no cycle, since nothing is above the new node. A
refused call leaves the database as it was. Hence whatever is built step by step is consistent, as
long as ids are not used up.
-/

namespace LogicCoverage

open Relation

namespace Database

variable {db : Database} {x : ExprId} {e : Expression}

/-! ## New entities -/

/-- As long as there is room, what is appended is found at the next index, and all else as before.
-/
theorem getElem?_push_index {α : Type} {xs : Array α} (h : xs.size < UInt32.size) (a : α)
    (i : UInt32) :
    (xs.push a)[i.toNat]? = if i = UInt32.ofNat xs.size then some a else xs[i.toNat]? := by
  have hindex : i = UInt32.ofNat xs.size ↔ i.toNat = xs.size := by
    rw [← UInt32.toNat_inj, UInt32.toNat_ofNat_of_lt' h]
  rw [Array.getElem?_push]
  simp only [hindex]

/-- The next index leads nowhere yet. -/
theorem getElem?_size {α : Type} {xs : Array α} (h : xs.size < UInt32.size) :
    xs[(UInt32.ofNat xs.size).toNat]? = none := by
  rw [UInt32.toNat_ofNat_of_lt' h]
  exact Array.getElem?_size

/-- The id that the next node gets; likewise below. -/
def nextExpr (db : Database) : ExprId := ExprId.ofNat db.exprs.size

def nextStmt (db : Database) : StmtId := StmtId.ofNat db.stmts.size

def nextScope (db : Database) : ScopeId := ScopeId.ofNat db.scopes.size

theorem expr?_addExpr (h : db.exprs.size < UInt32.size) (e : Expression) (x : ExprId) :
    (db.addExpr e).2.expr? x = if x = db.nextExpr then some e else db.expr? x := by
  have hid : x = db.nextExpr ↔ x.index = UInt32.ofNat db.exprs.size := by
    cases x
    simp [nextExpr, ExprId.ofNat]
  simp only [hid]
  exact getElem?_push_index h e x.index

theorem stmt?_addStmt (h : db.stmts.size < UInt32.size) (s : Statement) (id : StmtId) :
    (db.addStmt s).2.stmt? id = if id = db.nextStmt then some s else db.stmt? id := by
  have hid : id = db.nextStmt ↔ id.index = UInt32.ofNat db.stmts.size := by
    cases id
    simp [nextStmt, StmtId.ofNat]
  simp only [hid]
  exact getElem?_push_index h s id.index

theorem scope?_addScope (h : db.scopes.size < UInt32.size) (scope : Scope) (u : ScopeId) :
    (db.addScope scope).2.scope? u = if u = db.nextScope then some scope else db.scope? u := by
  have hid : u = db.nextScope ↔ u.index = UInt32.ofNat db.scopes.size := by
    cases u
    simp [nextScope, ScopeId.ofNat]
  simp only [hid]
  exact getElem?_push_index h scope u.index

/-- The next id has not been issued. -/
theorem expr?_nextExpr (h : db.exprs.size < UInt32.size) : db.expr? db.nextExpr = none :=
  getElem?_size h

theorem stmt?_nextStmt (h : db.stmts.size < UInt32.size) : db.stmt? db.nextStmt = none :=
  getElem?_size h

theorem scope?_nextScope (h : db.scopes.size < UInt32.size) : db.scope? db.nextScope = none :=
  getElem?_size h

/-! ## Owners -/

/-- Nothing owns the node. -/
def Free (db : Database) (x : ExprId) : Prop := ∃ e, db.expr? x = some e ∧ e.parent = .detached

/-- Gives nodes an owner. -/
def entrust (db : Database) (owner : Link) (operands : List ExprId) : Database :=
  operands.foldl (fun db x => db.modifyExpr x fun e => { e with parent := owner }) db

@[simp] theorem stmts_entrust (owner : Link) (operands : List ExprId) :
    (db.entrust owner operands).stmts = db.stmts := by
  induction operands generalizing db with
  | nil => rfl
  | cons x operands ih => exact ih

@[simp] theorem scopes_entrust (owner : Link) (operands : List ExprId) :
    (db.entrust owner operands).scopes = db.scopes := by
  induction operands generalizing db with
  | nil => rfl
  | cons x operands ih => exact ih

@[simp] theorem size_exprs_entrust (owner : Link) (operands : List ExprId) :
    (db.entrust owner operands).exprs.size = db.exprs.size := by
  induction operands generalizing db with
  | nil => rfl
  | cons x operands ih => exact ih.trans (db.size_exprs_modifyExpr x _)

/-- The operands have the owner as their parent; all other nodes are as before. -/
theorem expr?_entrust (owner : Link) (operands : List ExprId) (x : ExprId) :
    (db.entrust owner operands).expr? x =
      if x ∈ operands then (db.expr? x).map fun e => { e with parent := owner }
      else db.expr? x := by
  induction operands generalizing db with
  | nil => rfl
  | cons y operands ih =>
    refine Eq.trans ih ?_
    rw [expr?_modifyExpr]
    by_cases hxy : x = y
    · subst hxy
      simp [Function.comp_def]
    · simp [hxy]

/-! ## What stays -/

/-- Nodes keep their children, and their owner if they have one; statements stay. -/
structure Extends (db db' : Database) : Prop where
  expr {x : ExprId} {e : Expression} : db.expr? x = some e → ∃ e', db'.expr? x = some e' ∧
    e'.left = e.left ∧ e'.right = e.right ∧ (e.parent ≠ .detached → e'.parent = e.parent)
  stmt {s : StmtId} {st : Statement} : db.stmt? s = some st → db'.stmt? s = some st

namespace Extends

variable {db' : Database} (h : db.Extends db') (hf : db.Forest)

include h hf

/-- The children of a node that was there have it as their parent. -/
theorem child (he : db.expr? x = some e) {c : ExprId} (hc : c ∈ e.children) :
    ∃ ec, db'.expr? c = some ec ∧ ec.parent = .expr x := by
  obtain ⟨ec, hec, hp⟩ := hf.child he hc
  obtain ⟨ec', hec', -, -, hparent⟩ := h.expr hec
  exact ⟨ec', hec', (hparent (by rw [hp]; nofun)).trans hp⟩

/-- The parent of a node that was there has it as a child. -/
theorem parent (he : db.expr? x = some e) {p : ExprId} (hp : e.parent = .expr p) :
    ∃ ep, db'.expr? p = some ep ∧ x ∈ ep.children := by
  obtain ⟨ep, hep, hmem⟩ := hf.parent he hp
  obtain ⟨ep', hep', hleft, hright, -⟩ := h.expr hep
  refine ⟨ep', hep', ?_⟩
  rwa [Expression.children, hleft, hright]

/-- The statement that a node was the root of has it as its root. -/
theorem owner (he : db.expr? x = some e) {s : StmtId} (hs : e.parent = .stmt s) :
    ∃ st, db'.stmt? s = some st ∧ st.root = x := by
  obtain ⟨st, hst, hroot⟩ := hf.owner he hs
  exact ⟨st, h.stmt hst, hroot⟩

/-- The root of a statement that was there belongs to it. -/
theorem root {s : StmtId} {st : Statement} (hs : db.stmt? s = some st) :
    ∃ er, db'.expr? st.root = some er ∧ er.parent = .stmt s := by
  obtain ⟨er, her, hp⟩ := hf.root hs
  obtain ⟨er', her', -, -, hparent⟩ := h.expr her
  exact ⟨er', her', (hparent (by rw [hp]; nofun)).trans hp⟩

end Extends

/-- A change of scopes that lists nothing unknown leaves a forest. -/
theorem Forest.of_scopes (hf : db.Forest) {db' : Database} (hexprs : db'.exprs = db.exprs)
    (hstmts : db'.stmts = db.stmts)
    (hstatement : ∀ u scope, db'.scope? u = some scope → ∀ s ∈ scope.statements,
      ∃ st, db'.stmt? s = some st)
    (hchild : ∀ u scope, db'.scope? u = some scope → ∀ c ∈ scope.children,
      ∃ sc, db'.scope? c = some sc) : db'.Forest := by
  obtain ⟨exprs, stmts, scopes⟩ := db'
  cases hexprs
  cases hstmts
  exact {
    distinct := fun he => hf.distinct he
    child := fun he hc => hf.child he hc
    parent := fun he hp => hf.parent he hp
    owner := fun he hs => hf.owner he hs
    root := fun hs => hf.root hs
    statement := fun hu hs => hstatement _ _ hu _ hs
    childScope := fun hu hc => hchild _ _ hu _ hc
    acyclic := hf.acyclic }

/-! ## A node above others -/

/-- Adds a node above its children. -/
def graft (db : Database) (e : Expression) : Database :=
  (db.addExpr e).2.entrust (.expr db.nextExpr) e.children

theorem stmts_graft (db : Database) (e : Expression) : (db.graft e).stmts = db.stmts :=
  stmts_entrust _ _

theorem scopes_graft (db : Database) (e : Expression) : (db.graft e).scopes = db.scopes :=
  scopes_entrust _ _

/-- The node can be added: there is an id for it, and its children are distinct nodes without an
owner. -/
structure Graftable (db : Database) (e : Expression) : Prop where
  room : db.exprs.size < UInt32.size
  free {c : ExprId} : c ∈ e.children → db.Free c
  distinct : e.left = none ∨ e.left ≠ e.right
  detached : e.parent = .detached

namespace Graftable

variable (h : db.Graftable e)

include h

/-- A new node is none of its own operands. -/
theorem nextExpr_notMem : db.nextExpr ∉ e.children := by
  intro hmem
  obtain ⟨ec, hec, -⟩ := h.free hmem
  cases hec.symm.trans (expr?_nextExpr h.room)

/-- The new node is found at the next id. -/
theorem expr?_new : (db.graft e).expr? db.nextExpr = some e := by
  rw [graft, expr?_entrust, if_neg h.nextExpr_notMem, expr?_addExpr h.room, if_pos rfl]

/-- A node that was there has got a new parent if it is an operand, and is as before if not. -/
theorem expr?_old {ex : Expression} (hx : db.expr? x = some ex) :
    (db.graft e).expr? x =
      some (if x ∈ e.children then { ex with parent := .expr db.nextExpr } else ex) := by
  have hne : x ≠ db.nextExpr := by
    rintro rfl
    cases hx.symm.trans (expr?_nextExpr h.room)
  rw [graft, expr?_entrust, expr?_addExpr h.room, if_neg hne, hx]
  split <;> rfl

/-- A node of the result is the new one, a child of it, or as it was. -/
theorem expr?_cases {ex : Expression} (hx : (db.graft e).expr? x = some ex) :
    (x = db.nextExpr ∧ ex = e) ∨
    ∃ e₀, db.expr? x = some e₀ ∧
      (x ∈ e.children ∧ ex = { e₀ with parent := .expr db.nextExpr } ∨ ex = e₀) := by
  by_cases hnew : x = db.nextExpr
  · subst hnew
    cases hx.symm.trans h.expr?_new
    exact .inl ⟨rfl, rfl⟩
  · cases hold : db.expr? x with
    | none =>
      have hmem : x ∉ e.children := fun hmem => by
        obtain ⟨ec, hec, -⟩ := h.free hmem
        cases hec.symm.trans hold
      rw [graft, expr?_entrust, if_neg hmem, expr?_addExpr h.room, if_neg hnew, hold] at hx
      cases hx
    | some e₀ =>
      rw [h.expr?_old hold, Option.some.injEq] at hx
      refine .inr ⟨e₀, rfl, ?_⟩
      split at hx <;> rename_i hmem
      · exact .inl ⟨hmem, hx.symm⟩
      · exact .inr hx.symm

/-- To graft a node onto free operands extends the database. -/
theorem extension : db.Extends (db.graft e) where
  expr {x ex} hx := by
    refine ⟨_, h.expr?_old hx, ?_⟩
    split <;> rename_i hmem
    · obtain ⟨ec, hec, hdetached⟩ := h.free hmem
      cases hx.symm.trans hec
      exact ⟨rfl, rfl, fun howned => absurd hdetached howned⟩
    · exact ⟨rfl, rfl, fun _ => rfl⟩
  stmt hs := by rwa [stmt?, stmts_graft]

/-- The only new edges lead from the children to the new node. -/
theorem under_cases {c p : ExprId} (hu : (db.graft e).Under c p) :
    (c ∈ e.children ∧ p = db.nextExpr) ∨ db.Under c p := by
  obtain ⟨ex, hex, hp⟩ := hu
  rcases h.expr?_cases hex with ⟨-, rfl⟩ | ⟨e₀, hold, ⟨hmem, rfl⟩ | rfl⟩
  · cases hp.symm.trans h.detached
  · cases hp
    exact .inl ⟨hmem, rfl⟩
  · exact .inr ⟨ex, hold, hp⟩

/-- A path upwards ends at the new node, or was there before. -/
theorem transGen_cases {a b : ExprId} (hpath : TransGen (db.graft e).Under a b) :
    b = db.nextExpr ∨ TransGen db.Under a b := by
  induction hpath with
  | single hstep =>
    rcases h.under_cases hstep with ⟨-, hnew⟩ | hold
    · exact .inl hnew
    · exact .inr (.single hold)
  | tail _ hstep ih =>
    rcases h.under_cases hstep with ⟨-, hnew⟩ | hold
    · exact .inl hnew
    · rcases ih with rfl | hpath
      · -- nothing was above the new node, since it was not there
        obtain ⟨ex, hex, -⟩ := hold
        cases hex.symm.trans (expr?_nextExpr h.room)
      · exact .inr (hpath.tail hold)

/-- A forest that is grafted upon is a forest. -/
theorem forest (hf : db.Forest) : (db.graft e).Forest where
  distinct hx := by
    rcases h.expr?_cases hx with ⟨-, rfl⟩ | ⟨e₀, hold, ⟨-, rfl⟩ | rfl⟩
    · exact h.distinct
    · exact hf.distinct (e := e₀) hold
    · exact hf.distinct hold
  child {id ex c} hx hc := by
    rcases h.expr?_cases hx with ⟨rfl, rfl⟩ | ⟨e₀, hold, ⟨-, rfl⟩ | rfl⟩
    · obtain ⟨ec, hec, -⟩ := h.free hc
      exact ⟨_, h.expr?_old hec, by rw [if_pos hc]⟩
    · exact h.extension.child hf hold hc
    · exact h.extension.child hf hold hc
  parent {id ex p} hx hp := by
    rcases h.expr?_cases hx with ⟨-, rfl⟩ | ⟨e₀, hold, ⟨hmem, rfl⟩ | rfl⟩
    · cases hp.symm.trans h.detached
    · cases hp
      exact ⟨e, h.expr?_new, hmem⟩
    · exact h.extension.parent hf hold hp
  owner {id ex s} hx hs := by
    rcases h.expr?_cases hx with ⟨-, rfl⟩ | ⟨e₀, hold, ⟨-, rfl⟩ | rfl⟩
    · cases hs.symm.trans h.detached
    · cases hs
    · exact h.extension.owner hf hold hs
  root {s st} hs := by
    rw [stmt?, stmts_graft] at hs
    exact h.extension.root hf hs
  statement hu hs := by
    rw [scope?, scopes_graft] at hu
    obtain ⟨st, hst⟩ := hf.statement hu hs
    exact ⟨st, h.extension.stmt hst⟩
  childScope hu hc := by
    rw [scope?, scopes_graft] at hu ⊢
    exact hf.childScope hu hc
  acyclic id hcycle := by
    rcases h.transGen_cases hcycle with rfl | hold
    · obtain ⟨p, hstep, -⟩ := TransGen.head'_iff.mp hcycle
      rcases h.under_cases hstep with ⟨hmem, -⟩ | ⟨ex, hex, -⟩
      · exact h.nextExpr_notMem hmem
      · cases hex.symm.trans (expr?_nextExpr h.room)
    · exact hf.acyclic id hold

end Graftable

/-! ## A statement above a tree -/

/-- Adds a statement above its root. -/
def enroll (db : Database) (root : ExprId) : Database :=
  (db.addStmt ⟨root, false⟩).2.entrust (.stmt db.nextStmt) [root]

theorem scopes_enroll (db : Database) (root : ExprId) : (db.enroll root).scopes = db.scopes :=
  scopes_entrust _ _

/-- The root has the new statement as its parent; all other nodes are as before. -/
theorem expr?_enroll (root x : ExprId) : (db.enroll root).expr? x =
    if x = root then (db.expr? x).map fun e => { e with parent := .stmt db.nextStmt }
    else db.expr? x := by
  rw [enroll, expr?_entrust]
  simp only [List.mem_singleton]
  rfl

theorem stmt?_enroll (hroom : db.stmts.size < UInt32.size) (root : ExprId) (s : StmtId) :
    (db.enroll root).stmt? s = if s = db.nextStmt then some ⟨root, false⟩ else db.stmt? s := by
  rw [enroll, stmt?, stmts_entrust]
  exact stmt?_addStmt hroom ⟨root, false⟩ s

/-- A node of the result is the root of the new statement, or as it was. -/
theorem expr?_enroll_cases {root : ExprId} {ex : Expression}
    (hx : (db.enroll root).expr? x = some ex) :
    ∃ e₀, db.expr? x = some e₀ ∧
      (x = root ∧ ex = { e₀ with parent := .stmt db.nextStmt } ∨ ex = e₀) := by
  rw [expr?_enroll] at hx
  split at hx <;> rename_i hroot
  · obtain ⟨e₀, hold, rfl⟩ := Option.map_eq_some_iff.mp hx
    exact ⟨e₀, hold, .inl ⟨hroot, rfl⟩⟩
  · exact ⟨ex, hx, .inr rfl⟩

section Enroll

variable {root : ExprId} (hroom : db.stmts.size < UInt32.size) (hfree : db.Free root)

include hroom hfree

/-- To enroll a free root extends the database. -/
theorem extension_enroll : db.Extends (db.enroll root) where
  expr {x ex} hx := by
    rw [expr?_enroll, hx]
    split <;> rename_i hroot
    · obtain ⟨e₀, hold, hdetached⟩ := hfree
      subst hroot
      cases hx.symm.trans hold
      exact ⟨_, rfl, rfl, rfl, fun howned => absurd hdetached howned⟩
    · exact ⟨ex, rfl, rfl, rfl, fun _ => rfl⟩
  stmt {s st} hs := by
    rw [stmt?_enroll hroom, if_neg, hs]
    rintro rfl
    cases hs.symm.trans (stmt?_nextStmt hroom)

/-- A forest one of whose roots is enrolled is a forest. -/
theorem Forest.enroll (hf : db.Forest) : (db.enroll root).Forest where
  distinct hx := by
    obtain ⟨e₀, hold, ⟨-, rfl⟩ | rfl⟩ := expr?_enroll_cases hx
    · exact hf.distinct (e := e₀) hold
    · exact hf.distinct hold
  child hx hc := by
    obtain ⟨e₀, hold, ⟨-, rfl⟩ | rfl⟩ := expr?_enroll_cases hx
    · exact (extension_enroll hroom hfree).child hf hold hc
    · exact (extension_enroll hroom hfree).child hf hold hc
  parent hx hp := by
    obtain ⟨e₀, hold, ⟨-, rfl⟩ | rfl⟩ := expr?_enroll_cases hx
    · cases hp
    · exact (extension_enroll hroom hfree).parent hf hold hp
  owner hx hs := by
    obtain ⟨e₀, hold, ⟨rfl, rfl⟩ | rfl⟩ := expr?_enroll_cases hx
    · cases hs
      exact ⟨_, by rw [stmt?_enroll hroom, if_pos rfl], rfl⟩
    · exact (extension_enroll hroom hfree).owner hf hold hs
  root {s st} hs := by
    rw [stmt?_enroll hroom] at hs
    split at hs <;> rename_i hnew
    · cases hs
      obtain ⟨e₀, hold, -⟩ := hfree
      exact ⟨_, by rw [expr?_enroll, if_pos rfl, hold]; rfl, by rw [hnew]⟩
    · exact (extension_enroll hroom hfree).root hf hs
  statement hu hs := by
    rw [scope?, scopes_enroll] at hu
    obtain ⟨st, hst⟩ := hf.statement hu hs
    exact ⟨st, (extension_enroll hroom hfree).stmt hst⟩
  childScope hu hc := by
    rw [scope?, scopes_enroll] at hu ⊢
    exact hf.childScope hu hc
  acyclic id hcycle := by
    have hunder (c p : ExprId) (hu : (db.enroll root).Under c p) : db.Under c p := by
      obtain ⟨ex, hex, hp⟩ := hu
      obtain ⟨e₀, hold, ⟨-, rfl⟩ | rfl⟩ := expr?_enroll_cases hex
      · cases hp
      · exact ⟨ex, hold, hp⟩
    exact hf.acyclic id (TransGen.mono hunder _ _ hcycle)

end Enroll

/-! ## Scopes -/

/-- A scope without members does no harm to a forest. -/
theorem Forest.addScope (hf : db.Forest) (hroom : db.scopes.size < UInt32.size) {scope : Scope}
    (hstmts : scope.statements = []) (hchildren : scope.children = []) :
    (db.addScope scope).2.Forest := by
  refine hf.of_scopes rfl rfl (fun u sc hu s hs => ?_) fun u sc hu c hc => ?_
  · rw [scope?_addScope hroom] at hu
    split at hu
    · cases hu
      rw [hstmts] at hs
      cases hs
    · exact hf.statement hu hs
  · rw [scope?_addScope hroom] at hu
    split at hu <;> rename_i hnew
    · cases hu
      rw [hchildren] at hc
      cases hc
    · obtain ⟨sc', hsc'⟩ := hf.childScope hu hc
      refine ⟨sc', ?_⟩
      rw [scope?_addScope hroom, if_neg, hsc']
      rintro rfl
      cases hsc'.symm.trans (scope?_nextScope hroom)

/-- Lists of a scope may be extended by what exists. -/
theorem Forest.modifyScope (hf : db.Forest) {u : ScopeId} {f : Scope → Scope}
    (hstmts : ∀ scope, ∀ s ∈ (f scope).statements, s ∈ scope.statements ∨
      ∃ st, db.stmt? s = some st)
    (hchildren : ∀ scope, ∀ c ∈ (f scope).children, c ∈ scope.children ∨
      ∃ sc, db.scope? c = some sc) : (db.modifyScope u f).Forest := by
  have hcases {v : ScopeId} {scope : Scope} (hv : (db.modifyScope u f).scope? v = some scope) :
      db.scope? v = some scope ∨ ∃ scope₀, db.scope? v = some scope₀ ∧ scope = f scope₀ := by
    rw [scope?_modifyScope] at hv
    split at hv
    · obtain ⟨scope₀, hold, rfl⟩ := Option.map_eq_some_iff.mp hv
      exact .inr ⟨scope₀, hold, rfl⟩
    · exact .inl hv
  have hexists {c : ScopeId} {sc : Scope} (hc : db.scope? c = some sc) :
      ∃ sc', (db.modifyScope u f).scope? c = some sc' := by
    rw [scope?_modifyScope, hc]
    split
    · exact ⟨_, rfl⟩
    · exact ⟨sc, rfl⟩
  refine hf.of_scopes rfl rfl (fun v scope hv s hs => ?_) fun v scope hv c hc => ?_
  · rcases hcases hv with hold | ⟨scope₀, hold, rfl⟩
    · exact hf.statement hold hs
    · rcases hstmts scope₀ s hs with hs | hst
      · exact hf.statement hold hs
      · exact hst
  · rcases hcases hv with hold | ⟨scope₀, hold, rfl⟩
    · obtain ⟨sc, hsc⟩ := hf.childScope hold hc
      exact hexists hsc
    · rcases hchildren scope₀ c hc with hc | ⟨sc, hsc⟩
      · obtain ⟨sc, hsc⟩ := hf.childScope hold hc
        exact hexists hsc
      · exact hexists hsc

end Database

/-! ## Calls -/

namespace Build

variable {α : Type} {db : Database} {x : ExprId}

/-- A check of an operand leaves the database as it is, whatever it says. -/
theorem on_checkDetached (x : ExprId) (db : Database) :
    (checkDetached x).on db =
      match db.expr? x with
      | none => (.error (.unknownExpr x), db)
      | some e =>
        if e.parent ≠ .detached then (.error (.alreadyAttached x), db) else (.ok (), db) := by
  rw [checkDetached, Attempt.on_bind]
  show Attempt.on (match db.expr? x with | none => _ | some e => _) db = _
  cases db.expr? x with
  | none => rfl
  | some e =>
    dsimp only
    split <;> rfl

/-- A free operand passes the check. -/
theorem on_checkDetached_of_free (h : db.Free x) : (checkDetached x).on db = (.ok (), db) := by
  obtain ⟨e, he, hdetached⟩ := h
  rw [on_checkDetached, he]
  exact if_neg (not_not_intro hdetached)

/-- What is not free is refused. -/
theorem on_checkDetached_of_not_free (h : ¬ db.Free x) :
    ∃ error, (checkDetached x).on db = (.error error, db) := by
  rw [on_checkDetached]
  cases he : db.expr? x with
  | none => exact ⟨_, rfl⟩
  | some e => exact ⟨_, if_pos fun hdetached => h ⟨e, he, hdetached⟩⟩

/-- Where a check fails, the call ends and the database is as it was. -/
theorem on_check_bind_of_not_free (h : ¬ db.Free x) (next : Unit → Build α) :
    ∃ error, (checkDetached x >>= next).on db = (.error error, db) := by
  obtain ⟨error, herror⟩ := on_checkDetached_of_not_free h
  exact ⟨error, by rw [Attempt.on_bind, herror]⟩

/-- After a check that is passed, the call goes on with the same database. -/
theorem on_check_bind_of_free (h : db.Free x) (next : Unit → Build α) :
    (checkDetached x >>= next).on db = (next ()).on db := by
  rw [Attempt.on_bind, on_checkDetached_of_free h]

end Build

namespace BuildCall

variable {db : Database}

/-- The operands are distinct nodes without an owner. -/
def Accepted (call : BuildCall) (db : Database) : Prop :=
  (∀ x ∈ call.operands, db.Free x) ∧ call.operands.Nodup

/-- What an accepted call makes of the database. -/
def effect (call : BuildCall) (db : Database) : Database :=
  match call with
  | leaf op width line => db.graft (.new op width line)
  | unary op operand width line =>
    db.graft { Expression.new op width line with left := some operand }
  | binary op left right width line =>
    db.graft { Expression.new op width line with left := some left, right := some right }
  | statement root => db.enroll root

/-- A call that is accepted answers an id, and has its effect. -/
theorem on_of_accepted {call : BuildCall} (h : call.Accepted db) :
    ∃ id, call.build.on db = (.ok id, call.effect db) := by
  obtain ⟨hfree, hnodup⟩ := h
  cases call with
  | leaf op width line => exact ⟨_, rfl⟩
  | unary op operand width line =>
    have hcheck := hfree operand List.mem_cons_self
    exact ⟨_, by rw [build, Attempt.on_map, Build.unary, Build.on_check_bind_of_free hcheck]; rfl⟩
  | binary op left right width line =>
    have hleft := hfree left List.mem_cons_self
    have hright := hfree right (List.mem_cons_of_mem left List.mem_cons_self)
    have hne : left ≠ right := by simpa [operands] using hnodup
    refine ⟨.inl db.nextExpr, ?_⟩
    rw [build, Attempt.on_map, Build.binary, Build.on_check_bind_of_free hleft,
      Build.on_check_bind_of_free hright, if_neg hne]
    rfl
  | statement root =>
    have hcheck := hfree root List.mem_cons_self
    exact ⟨_, by rw [build, Attempt.on_map, Build.statement, Build.on_check_bind_of_free hcheck]; rfl⟩

/-- A call that is not accepted is refused, and has no effect. -/
theorem on_of_not_accepted {call : BuildCall} (h : ¬ call.Accepted db) :
    ∃ error, call.build.on db = (.error error, db) := by
  cases call with
  | leaf op width line => exact absurd ⟨nofun, List.nodup_nil⟩ h
  | unary op operand width line =>
    have hbusy : ¬ db.Free operand := by simpa [Accepted, operands] using h
    obtain ⟨error, herror⟩ := Build.on_check_bind_of_not_free hbusy _
    exact ⟨error, by rw [build, Attempt.on_map, Build.unary, herror]; rfl⟩
  | binary op left right width line =>
    have hsome (herror : ∃ error, (Build.binary op left right width line).on db =
        (.error error, db)) : ∃ error, (binary op left right width line).build.on db =
          (.error error, db) := by
      obtain ⟨error, herror⟩ := herror
      exact ⟨error, by rw [build, Attempt.on_map, herror]; rfl⟩
    apply hsome
    by_cases hleft : db.Free left
    · rw [Build.binary, Build.on_check_bind_of_free hleft]
      by_cases hright : db.Free right
      · have hsame : left = right := by simpa [Accepted, operands, hleft, hright] using h
        rw [Build.on_check_bind_of_free hright, if_pos hsame]
        exact ⟨_, rfl⟩
      · exact Build.on_check_bind_of_not_free hright _
    · exact Build.on_check_bind_of_not_free hleft _
  | statement root =>
    have hbusy : ¬ db.Free root := by simpa [Accepted, operands] using h
    obtain ⟨error, herror⟩ := Build.on_check_bind_of_not_free hbusy _
    exact ⟨error, by rw [build, Attempt.on_map, Build.statement, herror]; rfl⟩

/-- What may be wrong with a call: an operand was never issued or is no longer detached, or both
operands are one node. -/
theorem not_accepted_iff {call : BuildCall} : ¬ call.Accepted db ↔
    (∃ x ∈ call.operands, db.expr? x = none ∨
      ∃ e, db.expr? x = some e ∧ e.parent ≠ .detached) ∨
    ∃ op x width line, call = .binary op x x width line := by
  have hfree (x : ExprId) : ¬ db.Free x ↔
      db.expr? x = none ∨ ∃ e, db.expr? x = some e ∧ e.parent ≠ .detached := by
    rw [Database.Free]
    cases db.expr? x <;> simp
  have hnodup : ¬ call.operands.Nodup ↔ ∃ op x width line, call = .binary op x x width line := by
    cases call <;> simp [operands]
    grind
  rw [Accepted, not_and_or, hnodup]
  push Not
  simp only [hfree]

end BuildCall

/-! ## Steps -/

namespace Database

/-- Every entity has an id of its own. -/
structure Addressable (db : Database) : Prop where
  exprs : db.exprs.size ≤ UInt32.size
  stmts : db.stmts.size ≤ UInt32.size
  scopes : db.scopes.size ≤ UInt32.size

/-- Entities were added, and none removed. -/
structure Grown (db db' : Database) : Prop where
  exprs : db.exprs.size ≤ db'.exprs.size
  stmts : db.stmts.size ≤ db'.stmts.size
  scopes : db.scopes.size ≤ db'.scopes.size

variable {db db' : Database}

theorem Grown.refl (db : Database) : db.Grown db := ⟨le_refl _, le_refl _, le_refl _⟩

theorem Grown.trans {db'' : Database} (h : db.Grown db') (h' : db'.Grown db'') : db.Grown db'' :=
  ⟨h.exprs.trans h'.exprs, h.stmts.trans h'.stmts, h.scopes.trans h'.scopes⟩

/-- If a database can be addressed, so could what it has grown from. -/
theorem Grown.addressable (h : db.Grown db') (ha : db'.Addressable) : db.Addressable :=
  ⟨h.exprs.trans ha.exprs, h.stmts.trans ha.stmts, h.scopes.trans ha.scopes⟩

theorem size_exprs_graft (db : Database) (e : Expression) :
    (db.graft e).exprs.size = db.exprs.size + 1 :=
  (size_exprs_entrust _ _).trans (Array.size_push e)

theorem size_stmts_enroll (db : Database) (root : ExprId) :
    (db.enroll root).stmts.size = db.stmts.size + 1 := by
  rw [enroll, stmts_entrust]
  exact Array.size_push _

theorem grown_graft (db : Database) (e : Expression) : db.Grown (db.graft e) where
  exprs := by rw [size_exprs_graft]; omega
  stmts := by rw [stmts_graft]
  scopes := by rw [scopes_graft]

theorem grown_enroll (db : Database) (root : ExprId) : db.Grown (db.enroll root) where
  exprs := by
    rw [enroll, size_exprs_entrust]
    exact le_refl _
  stmts := by rw [size_stmts_enroll]; omega
  scopes := by rw [scopes_enroll]

end Database

open Database

namespace BuildCall

variable {db : Database} {call : BuildCall}

/-- No call takes anything away. -/
theorem grown_effect (call : BuildCall) (db : Database) : db.Grown (call.effect db) := by
  cases call with
  | leaf => exact grown_graft db _
  | unary => exact grown_graft db _
  | binary => exact grown_graft db _
  | statement root => exact grown_enroll db root

/-- What an accepted call leaves is a forest again. -/
theorem Accepted.forest (h : call.Accepted db) (hf : db.Forest)
    (haddr : (call.effect db).Addressable) : (call.effect db).Forest := by
  have hgraft {e : Expression} (hroom : (db.graft e).Addressable)
      (hfree : ∀ c ∈ e.children, db.Free c) (hdistinct : e.left = none ∨ e.left ≠ e.right)
      (hdetached : e.parent = .detached) : (db.graft e).Forest := by
    have hsize := hroom.exprs
    rw [size_exprs_graft] at hsize
    exact Graftable.forest ⟨hsize, hfree _, hdistinct, hdetached⟩ hf
  obtain ⟨hfree, hnodup⟩ := h
  cases call with
  | leaf op width line => exact hgraft haddr hfree (.inl rfl) rfl
  | unary op operand width line => exact hgraft haddr hfree (.inr nofun) rfl
  | binary op left right width line =>
    have hne : left ≠ right := by simpa [operands] using hnodup
    exact hgraft haddr hfree (.inr fun heq => hne (Option.some.inj heq)) rfl
  | statement root =>
    have hsize := haddr.stmts
    rw [effect, size_stmts_enroll] at hsize
    exact Forest.enroll hsize (hfree root List.mem_cons_self) hf

end BuildCall

namespace BuildStep

variable {db db' : Database} {step : BuildStep}

/-- New scopes are empty, and scopes list what was added before. The operands of calls are
arbitrary. -/
def Named (step : BuildStep) (db : Database) : Prop :=
  match step with
  | call _ => True
  | addScope scope => scope.statements = [] ∧ scope.children = []
  | listStatement scope stmt => (db.scope? scope).isSome ∧ (db.stmt? stmt).isSome
  | addChildScope parent child => (db.scope? parent).isSome ∧ (db.scope? child).isSome

instance (step : BuildStep) (db : Database) : Decidable (step.Named db) :=
  match step with
  | call _ => isTrue trivial
  | addScope _ => inferInstanceAs (Decidable (_ ∧ _))
  | listStatement _ _ => inferInstanceAs (Decidable (_ ∧ _))
  | addChildScope _ _ => inferInstanceAs (Decidable (_ ∧ _))

/-- To list a statement in a scope that there is appends it to the statements of the scope. -/
theorem listStatement_eq {u : ScopeId} (h : (db.scope? u).isSome) (s : StmtId) :
    db.listStatement u s =
      .ok (db.modifyScope u fun scope => { scope with statements := scope.statements ++ [s] }) := by
  obtain ⟨scope, hu⟩ := Option.isSome_iff_exists.mp h
  rw [Database.listStatement, db.scope_eq_ok_iff.mpr hu]
  rfl

/-- Likewise for its children. -/
theorem addChildScope_eq {u : ScopeId} (h : (db.scope? u).isSome) (c : ScopeId) :
    db.addChildScope u c =
      .ok (db.modifyScope u fun scope => { scope with children := scope.children ++ [c] }) := by
  obtain ⟨scope, hu⟩ := Option.isSome_iff_exists.mp h
  rw [Database.addChildScope, db.scope_eq_ok_iff.mpr hu]
  rfl

/-- A step with known ids meets no fault; it removes nothing, and it leaves a forest. -/
theorem on_spec (hn : step.Named db) :
    ∃ db', step.on db = .ok db' ∧ db.Grown db' ∧ (db.Forest → db'.Addressable → db'.Forest) := by
  have hmodify (u : ScopeId) (f : Scope → Scope) : db.Grown (db.modifyScope u f) :=
    ⟨le_refl _, le_refl _, Array.size_modify.ge⟩
  have hlast {α : Type} {P : α → Prop} {known : List α} {new : α} (h : P new) :
      ∀ x ∈ known ++ [new], x ∈ known ∨ P x := by
    intro x hx
    rcases List.mem_append.mp hx with hx | hx
    · exact .inl hx
    · exact .inr (List.mem_singleton.mp hx ▸ h)
  cases step with
  | call c =>
    refine ⟨_, rfl, ?_⟩
    by_cases h : c.Accepted db
    · obtain ⟨id, hid⟩ := BuildCall.on_of_accepted h
      rw [hid]
      exact ⟨c.grown_effect db, h.forest⟩
    · obtain ⟨error, herror⟩ := BuildCall.on_of_not_accepted h
      rw [herror]
      exact ⟨.refl db, fun hf _ => hf⟩
  | addScope scope =>
    have hsize : (db.addScope scope).2.scopes.size = db.scopes.size + 1 := Array.size_push scope
    refine ⟨_, rfl, ⟨le_refl _, le_refl _, by rw [hsize]; omega⟩, fun hf haddr => ?_⟩
    have hroom := haddr.scopes
    rw [hsize] at hroom
    exact hf.addScope hroom hn.1 hn.2
  | listStatement u s =>
    refine ⟨_, listStatement_eq hn.1 s, hmodify u _, fun hf _ => hf.modifyScope ?_ ?_⟩
    · exact fun scope => hlast (P := fun s => ∃ st, db.stmt? s = some st)
        (Option.isSome_iff_exists.mp hn.2)
    · exact fun scope c hc => .inl hc
  | addChildScope u c =>
    refine ⟨_, addChildScope_eq hn.1 c, hmodify u _, fun hf _ => hf.modifyScope ?_ ?_⟩
    · exact fun scope s hs => .inl hs
    · exact fun scope => hlast (P := fun c => ∃ sc, db.scope? c = some sc)
        (Option.isSome_iff_exists.mp hn.2)

end BuildStep

/-! ## Sequences of steps -/

namespace Database

variable {db : Database}

/-- At its turn, every step names what was added before. -/
def Issued (db : Database) : List BuildStep → Prop
  | [] => True
  | step :: steps => step.Named db ∧ ∀ db', step.on db = .ok db' → db'.Issued steps

instance decidableIssued : (db : Database) → (steps : List BuildStep) → Decidable (db.Issued steps)
  | _, [] => isTrue trivial
  | db, step :: steps =>
    match h : step.on db with
    | .error _ =>
      decidable_of_iff (step.Named db) ⟨fun hn => ⟨hn, fun _ hd => nomatch h.symm.trans hd⟩, And.left⟩
    | .ok d =>
      have := decidableIssued d steps
      decidable_of_iff (step.Named db ∧ d.Issued steps)
        ⟨fun hn => ⟨hn.1, fun _ hd => Except.ok.inj (h.symm.trans hd) ▸ hn.2⟩,
          fun hn => ⟨hn.1, hn.2 d h⟩⟩

/-- A sequence of steps on issued scopes comes to its end, only adds, and turns forests into
forests. -/
theorem build_spec {steps : List BuildStep} (hn : db.Issued steps) :
    ∃ db', db.build steps = .ok db' ∧ db.Grown db' ∧
      (db.Forest → db'.Addressable → db'.Forest) := by
  induction steps generalizing db with
  | nil => exact ⟨db, rfl, .refl db, fun hf _ => hf⟩
  | cons step steps ih =>
    obtain ⟨hnamed, hrest⟩ := hn
    obtain ⟨db₁, hstep, hgrown, hforest⟩ := BuildStep.on_spec hnamed
    obtain ⟨db', hfold, hgrown', hforest'⟩ := ih (hrest db₁ hstep)
    refine ⟨db', ?_, hgrown.trans hgrown', fun hf haddr => ?_⟩
    · rw [build, List.foldlM_cons, hstep]
      exact hfold
    · exact hforest' (hforest hf (hgrown'.addressable haddr)) haddr

/-- Building on an accepted database, step by step and with arbitrary operands, ends in an accepted
database, as long as every entity has an id. A call of the builder fails just if an operand is no
node, has an owner, or is given twice; then it leaves the database exactly as it was. -/
theorem validate_of_built (hdb : db.validate = .ok ()) {steps : List BuildStep}
    (hn : db.Issued steps) :
    (∃ db', db.build steps = .ok db' ∧ (db'.Addressable → db'.validate = .ok ())) ∧
    ∀ (call : BuildCall) (d : Database),
      ((∃ error d', call.build.on d = (.error error, d')) ↔
        (∃ x ∈ call.operands, d.expr? x = none ∨
          ∃ e, d.expr? x = some e ∧ e.parent ≠ .detached) ∨
        ∃ op x width line, call = .binary op x x width line) ∧
      ∀ error d', call.build.on d = (.error error, d') → d' = d := by
  have hvalid (d : Database) : d.validate = .ok () ↔ d.Forest := by
    rw [validate_eq, mapError_eq_ok_iff, check_eq_ok_iff]
  refine ⟨?_, fun call d => ?_⟩
  · obtain ⟨db', hfold, -, hforest⟩ := build_spec hn
    exact ⟨db', hfold, fun haddr => (hvalid db').mpr (hforest ((hvalid db).mp hdb) haddr)⟩
  · rw [← BuildCall.not_accepted_iff]
    by_cases h : call.Accepted d
    · obtain ⟨id, hid⟩ := BuildCall.on_of_accepted h
      rw [hid]
      exact ⟨⟨nofun, fun hnot => absurd h hnot⟩, nofun⟩
    · obtain ⟨error, herror⟩ := BuildCall.on_of_not_accepted h
      rw [herror]
      refine ⟨⟨fun _ => h, fun _ => ⟨error, d, rfl⟩⟩, fun error' d' heq => ?_⟩
      exact (Prod.mk.inj heq).2.symm

/-- A gate over two signals in a scope, with three calls on the way that are refused: an operand
twice, an operand that has an owner, and one that does not exist. -/
def gateSteps : List BuildStep := [
  .call (.leaf .signal 1 7),
  .call (.leaf .signal 1 7),
  .call (.binary .logicAnd ⟨0⟩ ⟨1⟩ 1 7),
  .call (.binary .logicOr ⟨2⟩ ⟨2⟩ 1 7),
  .call (.unary .logicNot ⟨0⟩ 1 7),
  .call (.statement ⟨9⟩),
  .call (.statement ⟨2⟩),
  .addScope ⟨"top", .moduleScope, [], [], .zero⟩,
  .addScope ⟨"top.gate", .instanceScope, [], [], .zero⟩,
  .listStatement ⟨0⟩ ⟨0⟩,
  .addChildScope ⟨0⟩ ⟨1⟩]

theorem validate_of_built_gateSteps :
    empty.validate = .ok () ∧ empty.Issued gateSteps ∧
      ∃ db, empty.build gateSteps = .ok db ∧ db.Addressable ∧ db.exprs.size = 3 ∧
        db.validate = .ok () := by
  have hempty : empty.validate = .ok () := by decide
  have hissued : empty.Issued gateSteps := by decide +kernel
  have hsizes : (empty.build gateSteps).map
      (fun db => (db.exprs.size, db.stmts.size, db.scopes.size)) = .ok (3, 1, 2) := by
    decide +kernel
  obtain ⟨⟨db, hbuild, hvalid⟩, -⟩ := validate_of_built hempty hissued
  rw [hbuild] at hsizes
  obtain ⟨hexprs, hrest⟩ := Prod.mk.inj (Except.ok.inj hsizes)
  obtain ⟨hstmts, hscopes⟩ := Prod.mk.inj hrest
  have haddr : db.Addressable := ⟨by rw [hexprs]; decide, by rw [hstmts]; decide,
    by rw [hscopes]; decide⟩
  exact ⟨hempty, hissued, db, hbuild, haddr, hexprs, hvalid haddr⟩

end Database

end LogicCoverage
