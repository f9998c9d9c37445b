import LogicCoverage.Proofs.Shape

/-!
# The bare content of a database

A scoring writes underline ids and cached statistics, and an exclusion writes exclusions on top of
that. What is left is the bare content: the links, the widths, and what the simulation showed.
The bare content has the shape of the database, so that links, depths, constancy and chains are read
off it alone.
-/

namespace LogicCoverage

open Relation

/-- A change that a view does not see, seen through that view. -/
theorem map_modify_of_comp {α β : Type} {view : α → β} {change : α → α}
    (h : ∀ a, view (change a) = view a) (xs : Array α) (i : Nat) :
    (xs.modify i change).map view = xs.map view := by
  apply Array.ext_getElem?
  intro j
  rw [Array.getElem?_map, Array.getElem?_modify, Array.getElem?_map]
  split
  · cases xs[j]? with
    | none => rfl
    | some a => exact congrArg some (h a)
  · rfl

/-- A change that a view preserves, seen through that view. -/
theorem map_modify_of_comm {α : Type} {view change : α → α}
    (h : ∀ a, view (change a) = change (view a)) (xs : Array α) (i : Nat) :
    (xs.modify i change).map view = (xs.map view).modify i change := by
  apply Array.ext_getElem?
  intro j
  rw [Array.getElem?_map, Array.getElem?_modify, Array.getElem?_modify, Array.getElem?_map]
  split
  · cases xs[j]? with
    | none => rfl
    | some a => exact congrArg some (h a)
  · rfl

namespace Expression

/-- Without its number. -/
def unscored (e : Expression) : Expression := { e with underline := none }

/-- Without its number and its exclusion. -/
def bare (e : Expression) : Expression := { e with excluded := false, underline := none }

@[simp] theorem isScorable_bare (e : Expression) : e.bare.isScorable = e.isScorable := rfl

end Expression

/-- Without the exclusion of its line. -/
def Statement.bare (stmt : Statement) : Statement := { stmt with lineExcluded := false }

/-- What is bare of a statement tells its root. -/
theorem Statement.root_eq_of_bare {stmt stmt' : Statement} (h : stmt'.bare = stmt.bare) :
    stmt'.root = stmt.root := by
  have hroot : stmt'.bare.root = stmt.bare.root := by rw [h]
  exact hroot

/-- Without its cached statistic. -/
def Scope.unscored (scope : Scope) : Scope := { scope with stat := .zero }

namespace Database

/-- What a scoring leaves alone: all but underline ids and cached statistics. -/
def unscored (db : Database) : Database where
  exprs := db.exprs.map Expression.unscored
  stmts := db.stmts
  scopes := db.scopes.map Scope.unscored

/-- What scorings and exclusions leave alone. -/
def bare (db : Database) : Database where
  exprs := db.exprs.map Expression.bare
  stmts := db.stmts.map Statement.bare
  scopes := db.scopes.map Scope.unscored

variable (db : Database)

/-- Nothing is left to see of a score in what is bare. -/
theorem bare_unscored : db.unscored.bare = db.bare := by
  simp [bare, unscored, Expression.bare, Expression.unscored, Scope.unscored,
    Function.comp_def]

/-- Databases that differ in scores only are bare of the same. -/
theorem bare_eq_of_unscored {db db' : Database} (h : db'.unscored = db.unscored) :
    db'.bare = db.bare := by
  rw [← bare_unscored db', h, bare_unscored]

/-- Scores stand outside of the statements. -/
theorem stmts_eq_of_unscored {db db' : Database} (h : db'.unscored = db.unscored) :
    db'.stmts = db.stmts := by
  have hstmts : db'.unscored.stmts = db.unscored.stmts := by rw [h]
  exact hstmts

theorem stmt?_eq_of_unscored {db db' : Database} (h : db'.unscored = db.unscored) (id : StmtId) :
    db'.stmt? id = db.stmt? id := by
  rw [stmt?, stmts_eq_of_unscored h, stmt?]

/-! ## Look-ups -/

theorem expr?_unscored (id : ExprId) :
    db.unscored.expr? id = (db.expr? id).map Expression.unscored := by
  simp [expr?, unscored]

theorem expr?_bare (id : ExprId) : db.bare.expr? id = (db.expr? id).map Expression.bare := by
  simp [expr?, bare]

theorem stmt?_bare (id : StmtId) :
    db.bare.stmt? id = (db.stmt? id).map Statement.bare := by
  simp [stmt?, bare]

theorem scope?_bare (id : ScopeId) :
    db.bare.scope? id = (db.scope? id).map Scope.unscored := by
  simp [scope?, bare]

theorem scopeIds_bare : db.bare.scopeIds = db.scopeIds := by
  simp only [scopeIds, positions, bare, Array.size_map]

theorem scopeIds_congr {db db' : Database} (h : db'.bare = db.bare) : db'.scopeIds = db.scopeIds := by
  rw [← scopeIds_bare, h, scopeIds_bare]

theorem findScope?_bare (name : String) : db.bare.findScope? name = db.findScope? name := by
  rw [findScope?, findScope?, scopeIds_bare]
  congr 1
  funext u
  rw [scope?_bare, Option.any_map]
  rfl

theorem scopesListing_bare (id : StmtId) : db.bare.scopesListing id = db.scopesListing id := by
  rw [scopesListing, scopesListing, scopeIds_bare]
  congr 1
  funext u
  rw [scope?_bare, Option.any_map]
  rfl

/-- A look-up by a bare id meets the same fault. -/
theorem expr_bare (id : ExprId) : db.bare.expr id = (db.expr id).map Expression.bare := by
  simp only [expr, entry, bare, Array.getElem?_map, Array.size_map]
  cases db.exprs[id.index.toNat]? <;> rfl

section Agree

variable {db} {db' : Database} (h : db'.bare = db.bare)

include h

/-- Databases of one bare content have the same nodes, statements and scopes up to what is not
bare. -/
theorem exists_expr?_of_bare {id : ExprId} {e : Expression} (he : db.expr? id = some e) :
    ∃ e', db'.expr? id = some e' ∧ e'.bare = e.bare := by
  rw [← Option.map_eq_some_iff, ← expr?_bare, h, expr?_bare, he]
  rfl

/-- The statement that has the same id in another database with the same bare part. -/
theorem exists_stmt?_of_bare {id : StmtId} {stmt : Statement} (hs : db.stmt? id = some stmt) :
    ∃ stmt', db'.stmt? id = some stmt' ∧ stmt'.bare = stmt.bare := by
  rw [← Option.map_eq_some_iff, ← stmt?_bare, h, stmt?_bare, hs]
  rfl

/-- Likewise for scopes, which keep all but their scores. -/
theorem exists_scope?_of_bare {id : ScopeId} {scope : Scope} (hs : db.scope? id = some scope) :
    ∃ scope', db'.scope? id = some scope' ∧ scope'.unscored = scope.unscored := by
  rw [← Option.map_eq_some_iff, ← scope?_bare, h, scope?_bare, hs]
  rfl

theorem exists_scope?_congr {id : ScopeId} (hs : ∃ scope, db.scope? id = some scope) :
    ∃ scope', db'.scope? id = some scope' := by
  obtain ⟨scope, hs⟩ := hs
  obtain ⟨scope', hs', -⟩ := exists_scope?_of_bare h hs
  exact ⟨scope', hs'⟩

end Agree

@[simp] theorem size_exprs_bare : db.bare.exprs.size = db.exprs.size := by simp [bare]

/-! ## Shape -/

/-- All that the links and the categories say is left in what is bare. -/
theorem sameShape_bare : db.SameShape db.bare where
  size := db.size_exprs_bare
  expr? id := by
    rw [expr?_bare]
    cases db.expr? id with
    | none => exact .none
    | some e => exact .some ⟨rfl, rfl, rfl, rfl, rfl, rfl⟩

theorem under_bare : db.bare.Under = db.Under := db.sameShape_bare.under

theorem nodes_bare (id : ExprId) : db.bare.nodes id = db.nodes id := db.sameShape_bare.nodes id

variable {db} in
/-- Which nodes are below a node is read off what is bare. -/
theorem nodes_congr {db' : Database} (h : db'.bare = db.bare) (id : ExprId) :
    db'.nodes id = db.nodes id := by
  rw [← nodes_bare, h, nodes_bare]

theorem allConstant_bare (id : ExprId) : db.bare.allConstant id = db.allConstant id :=
  db.sameShape_bare.allConstant id

theorem depth_bare (id : ExprId) : db.bare.depth id = db.depth id := db.sameShape_bare.depth id

theorem chainOperands_bare (root : ExprId) : db.bare.chainOperands root = db.chainOperands root :=
  db.sameShape_bare.chainOperands root

theorem chainRole_bare (id : ExprId) (cfg : ScoringConfig) :
    db.bare.chainRole id cfg = db.chainRole id cfg :=
  db.sameShape_bare.chainRole rfl id

theorem isSubsumed_bare (id : ExprId) : db.bare.isSubsumed id = db.isSubsumed id :=
  db.sameShape_bare.isSubsumed id

/-! ## Forests -/

variable {db}

/-- To be a forest is a matter of links only. -/
theorem Forest.of_bare (h : db.bare.Forest) : db.Forest where
  distinct {id e} he := h.distinct (e := e.bare) (by rw [expr?_bare, he]; rfl)
  child {id e c} he hc := by
    obtain ⟨_, hec, hp⟩ := h.child (e := e.bare) (by rw [expr?_bare, he]; rfl) hc
    rw [expr?_bare, Option.map_eq_some_iff] at hec
    obtain ⟨ec, hec, rfl⟩ := hec
    exact ⟨ec, hec, hp⟩
  parent {id e p} he hp := by
    obtain ⟨_, hep, hc⟩ := h.parent (e := e.bare) (by rw [expr?_bare, he]; rfl) hp
    rw [expr?_bare, Option.map_eq_some_iff] at hep
    obtain ⟨ep, hep, rfl⟩ := hep
    exact ⟨ep, hep, hc⟩
  owner {id e s} he hp := by
    obtain ⟨_, hs, hr⟩ := h.owner (e := e.bare) (by rw [expr?_bare, he]; rfl) hp
    rw [stmt?_bare, Option.map_eq_some_iff] at hs
    obtain ⟨st, hs, rfl⟩ := hs
    exact ⟨st, hs, hr⟩
  root {s st} hs := by
    have hs' : db.bare.stmt? s = some st.bare := by rw [stmt?_bare, hs]; rfl
    obtain ⟨_, he, hp⟩ := h.root hs'
    rw [expr?_bare, Option.map_eq_some_iff] at he
    obtain ⟨e, he, rfl⟩ := he
    exact ⟨e, he, hp⟩
  statement {u scope s} hu hs := by
    have hu' : db.bare.scope? u = some scope.unscored := by rw [scope?_bare, hu]; rfl
    obtain ⟨_, hst⟩ := h.statement hu' hs
    rw [stmt?_bare, Option.map_eq_some_iff] at hst
    obtain ⟨st, hst, -⟩ := hst
    exact ⟨st, hst⟩
  childScope {u scope c} hu hc := by
    have hu' : db.bare.scope? u = some scope.unscored := by rw [scope?_bare, hu]; rfl
    obtain ⟨_, hsc⟩ := h.childScope hu' hc
    rw [scope?_bare, Option.map_eq_some_iff] at hsc
    obtain ⟨sc, hsc, -⟩ := hsc
    exact ⟨sc, hsc⟩
  acyclic id := by
    rw [← under_bare db]
    exact h.acyclic id

/-- What is bare of a forest is a forest. -/
theorem Forest.bare (h : db.Forest) : db.bare.Forest where
  distinct {id e} he := by
    rw [expr?_bare, Option.map_eq_some_iff] at he
    obtain ⟨e, he, rfl⟩ := he
    exact h.distinct (e := e) he
  child {id e c} he hc := by
    rw [expr?_bare, Option.map_eq_some_iff] at he
    obtain ⟨e, he, rfl⟩ := he
    obtain ⟨ec, hec, hp⟩ := h.child he hc
    exact ⟨ec.bare, by rw [expr?_bare, hec]; rfl, hp⟩
  parent {id e p} he hp := by
    rw [expr?_bare, Option.map_eq_some_iff] at he
    obtain ⟨e, he, rfl⟩ := he
    obtain ⟨ep, hep, hc⟩ := h.parent he hp
    exact ⟨ep.bare, by rw [expr?_bare, hep]; rfl, hc⟩
  owner {id e s} he hp := by
    rw [expr?_bare, Option.map_eq_some_iff] at he
    obtain ⟨e, he, rfl⟩ := he
    obtain ⟨st, hs, hr⟩ := h.owner he hp
    exact ⟨st.bare, by rw [stmt?_bare, hs]; rfl, hr⟩
  root {s st} hs := by
    rw [stmt?_bare, Option.map_eq_some_iff] at hs
    obtain ⟨st, hs, rfl⟩ := hs
    obtain ⟨e, he, hp⟩ := h.root hs
    refine ⟨e.bare, ?_, hp⟩
    change db.bare.expr? st.root = _
    rw [expr?_bare, he]
    rfl
  statement {u scope s} hu hs := by
    rw [scope?_bare, Option.map_eq_some_iff] at hu
    obtain ⟨scope, hu, rfl⟩ := hu
    obtain ⟨st, hst⟩ := h.statement hu hs
    exact ⟨_, by rw [stmt?_bare, hst]; rfl⟩
  childScope {u scope c} hu hc := by
    rw [scope?_bare, Option.map_eq_some_iff] at hu
    obtain ⟨scope, hu, rfl⟩ := hu
    obtain ⟨sc, hsc⟩ := h.childScope hu hc
    exact ⟨_, by rw [scope?_bare, hsc]; rfl⟩
  acyclic id := by
    rw [under_bare db]
    exact h.acyclic id

/-- Scorings and exclusions keep a forest a forest. -/
theorem Forest.congr {db' : Database} (h : db.Forest) (hb : db'.bare = db.bare) : db'.Forest :=
  .of_bare (hb ▸ h.bare)

/-- In the bare content nothing is muted. -/
theorem Forest.muted_bare (hf : db.Forest) {id : ExprId} {e : Expression}
    (h : db.expr? id = some e) : db.bare.muted id = false := by
  rw [Bool.eq_false_iff, Ne, hf.bare.muted_iff (e := e.bare) (by rw [expr?_bare, h]; rfl)]
  rintro ⟨x, _, -, hx, hex⟩
  rw [expr?_bare, Option.map_eq_some_iff] at hx
  obtain ⟨ex, -, rfl⟩ := hx
  cases hex

/-! ## Exclusion -/

/-- The node itself is excluded. -/
def flagged (db : Database) (id : ExprId) : Bool := (db.expr? id).any (·.excluded)

/-- A node is muted when one that it is or is under is excluded. -/
theorem Forest.muted_iff_flagged (hf : db.Forest) {id : ExprId} :
    db.muted id = true ↔ ∃ x, ReflTransGen db.Under id x ∧ db.flagged x = true := by
  cases h : db.expr? id with
  | none =>
    have herr : db.isEffectivelyExcluded id =
        .error (.noSuchEntity db.exprs.size id.index.toNat) := by
      rw [isEffectivelyExcluded, expr, entry]
      simp [expr?] at h
      simp [h, bind, Except.bind]
    rw [muted, herr]
    refine ⟨fun hfalse => absurd hfalse Bool.false_ne_true, ?_⟩
    rintro ⟨x, hx, hflag⟩
    rcases ReflTransGen.cases_head hx with rfl | ⟨_, ⟨e, he, -⟩, -⟩
    · rw [flagged, h] at hflag
      cases hflag
    · cases h.symm.trans he
  | some e =>
    rw [hf.muted_iff h]
    apply exists_congr
    intro x
    rw [flagged]
    cases db.expr? x <;> simp

/-- Flags are no scores. -/
theorem flagged_eq_of_unscored {db' : Database} (h : db'.unscored = db.unscored) :
    db'.flagged = db.flagged := by
  funext id
  have hid : (db'.expr? id).map Expression.unscored = (db.expr? id).map Expression.unscored := by
    rw [← expr?_unscored, h, expr?_unscored]
  have hread (d : Database) :
      d.flagged id = ((d.expr? id).map Expression.unscored).any (·.excluded) := by
    rw [flagged]
    cases d.expr? id <;> rfl
  rw [hread, hid, hread]

/-- A node is muted by the flags of the nodes above it, and by nothing else. -/
theorem Forest.muted_congr (hf : db.Forest) {db' : Database} (hb : db'.bare = db.bare)
    (hflag : db'.flagged = db.flagged) : db'.muted = db.muted := by
  funext id
  rw [Bool.eq_iff_iff, (hf.congr hb).muted_iff_flagged, hf.muted_iff_flagged, hflag,
    ← under_bare db', hb, under_bare]

/-- A scoring mutes nothing and leaves what is muted. -/
theorem Forest.muted_eq_of_unscored (hf : db.Forest) {db' : Database}
    (h : db'.unscored = db.unscored) : db'.muted = db.muted :=
  hf.muted_congr (bare_eq_of_unscored h) (flagged_eq_of_unscored h)

end Database

end LogicCoverage
