import LogicCoverage.Database.Consistency
import Mathlib.Data.Fintype.Card
import Mathlib.Data.Fintype.EquivFin
import Mathlib.Logic.Relation

/-!
# The forest of a consistent database

`Forest` says what the links of a database have to satisfy: parents and children agree on each
other, so do statements and their roots, everything listed exists, and no node stands above itself.
The main statement is that the check of consistency accepts forests only. Since there are finitely
many ids, the absence of cycles gives an induction from the leaves up and one from the top down.
-/

namespace LogicCoverage

open Relation

instance : Finite ExprId :=
  Finite.of_injective (fun id : ExprId => id.index.toFin) fun _ _ h =>
    ExprId.toNat_index_inj.mp (congrArg Fin.val h)

/-- A test is passed before what follows it. -/
theorem seq_eq_ok_iff {ε β : Type} {x : Except ε Unit} {y : Except ε β} {b : β} :
    (x >>= fun _ => y) = .ok b ↔ x = .ok () ∧ y = .ok b := by
  cases x <;> simp [bind, Except.bind]

/-- A pass over a list raises no objection when no element does. -/
theorem forM_eq_ok_iff {ε α : Type} {l : List α} {f : α → Except ε Unit} :
    l.forM f = .ok () ↔ ∀ a ∈ l, f a = .ok () := by
  induction l with
  | nil => exact ⟨fun _ _ h => (List.not_mem_nil h).elim, fun _ => rfl⟩
  | cons a l ih =>
    change (f a >>= fun _ => l.forM f) = .ok () ↔ _
    rw [seq_eq_ok_iff, ih, List.forall_mem_cons]

theorem option_forM_eq_ok_iff {ε α : Type} {o : Option α} {f : α → Except ε Unit} :
    o.forM f = .ok () ↔ ∀ a, o = some a → f a = .ok () := by
  cases o <;> simp [Option.forM, pure, Except.pure]

theorem unless?_eq_ok_iff {condition : Bool} {objection : Inconsistency} :
    unless? condition objection = .ok () ↔ condition = true := by
  cases condition <;> simp [unless?]

theorem Expression.mem_children {e : Expression} {c : ExprId} :
    c ∈ e.children ↔ e.left = some c ∨ e.right = some c := by
  simp [Expression.children]

namespace Database

/-- The first node is a child of the second, as its own link says. -/
def Under (db : Database) (child parent : ExprId) : Prop :=
  ∃ e, db.expr? child = some e ∧ e.parent = .expr parent

/-- The links of the database form a forest, and what is listed exists. -/
structure Forest (db : Database) : Prop where
  distinct {id e} : db.expr? id = some e → e.left = none ∨ e.left ≠ e.right
  child {id e c} : db.expr? id = some e → c ∈ e.children →
    ∃ ec, db.expr? c = some ec ∧ ec.parent = .expr id
  parent {id e p} : db.expr? id = some e → e.parent = .expr p →
    ∃ ep, db.expr? p = some ep ∧ id ∈ ep.children
  owner {id e s} : db.expr? id = some e → e.parent = .stmt s →
    ∃ st, db.stmt? s = some st ∧ st.root = id
  root {s st} : db.stmt? s = some st → ∃ e, db.expr? st.root = some e ∧ e.parent = .stmt s
  statement {u scope s} : db.scope? u = some scope → s ∈ scope.statements →
    ∃ st, db.stmt? s = some st
  childScope {u scope c} : db.scope? u = some scope → c ∈ scope.children →
    ∃ sc, db.scope? c = some sc
  acyclic (id) : ¬ TransGen db.Under id id

variable {db : Database}

/-! ## Ids -/

/-- What an id leads to is at one of the positions. -/
theorem mem_positions {α : Type} {xs : Array α} {i : UInt32} {x : α} (h : xs[i.toNat]? = some x) :
    i.toNat ∈ positions xs := by
  have hi := (Array.getElem?_eq_some_iff.mp h).1
  have := i.toNat_lt_size
  simp only [positions, List.mem_range]
  omega

/-- All ids that lead to a node are gone through. -/
theorem mem_exprIds {id : ExprId} {e : Expression} (h : db.expr? id = some e) :
    id ∈ db.exprIds :=
  List.mem_map.mpr ⟨_, mem_positions h, by simp [ExprId.ofNat]⟩

theorem mem_stmtIds {id : StmtId} {s : Statement} (h : db.stmt? id = some s) :
    id ∈ db.stmtIds :=
  List.mem_map.mpr ⟨_, mem_positions h, by simp [StmtId.ofNat]⟩

theorem mem_scopeIds {id : ScopeId} {s : Scope} (h : db.scope? id = some s) :
    id ∈ db.scopeIds :=
  List.mem_map.mpr ⟨_, mem_positions h, by simp [ScopeId.ofNat]⟩

/-- There is something at every position. -/
theorem exists_getElem?_of_mem_positions {α : Type} {xs : Array α} {i : Nat}
    (h : i ∈ positions xs) : ∃ x, xs[(UInt32.ofNat i).toNat]? = some x := by
  rw [positions, List.mem_range, Nat.lt_min] at h
  rw [UInt32.toNat_ofNat_of_lt' h.2]
  exact ⟨xs[i], Array.getElem?_eq_getElem h.1⟩

theorem exists_expr?_of_mem {id : ExprId} (h : id ∈ db.exprIds) : ∃ e, db.expr? id = some e := by
  obtain ⟨i, hi, rfl⟩ := List.mem_map.mp h
  exact exists_getElem?_of_mem_positions hi

theorem exists_scope?_of_mem {id : ScopeId} (h : id ∈ db.scopeIds) :
    ∃ scope, db.scope? id = some scope := by
  obtain ⟨i, hi, rfl⟩ := List.mem_map.mp h
  exact exists_getElem?_of_mem_positions hi

theorem nodup_scopeIds (db : Database) : db.scopeIds.Nodup := by
  refine List.Nodup.map_on ?_ List.nodup_range
  intro i hi j hj hij
  have hlt {n : Nat} (hn : n ∈ positions db.scopes) : n < UInt32.size := by
    rw [positions, List.mem_range] at hn
    omega
  have hval : (UInt32.ofNat i).toNat = (UInt32.ofNat j).toNat := by
    rw [show UInt32.ofNat i = UInt32.ofNat j from congrArg ScopeId.index hij]
  rwa [UInt32.toNat_ofNat_of_lt' (hlt hi), UInt32.toNat_ofNat_of_lt' (hlt hj)] at hval

/-! ## What the check says of the links -/

/-- A child passes if it is there and has the node as its parent. -/
theorem checkChild_eq_ok_iff {id c : ExprId} :
    db.checkChild id c = .ok () ↔ ∃ ec, db.expr? c = some ec ∧ ec.parent = .expr id := by
  unfold checkChild
  cases db.expr? c <;> simp [unless?_eq_ok_iff]

/-- A node passes if its children are not the same, all of them pass, and its owner passes. -/
theorem checkExpr_eq_ok_iff {id : ExprId} {e : Expression} :
    db.checkExpr id e = .ok () ↔
      (e.left = none ∨ e.left ≠ e.right) ∧
      (∀ c ∈ e.children, ∃ ec, db.expr? c = some ec ∧ ec.parent = .expr id) ∧
      db.checkOwner id e.parent = .ok () := by
  simp only [checkExpr, seq_eq_ok_iff, forM_eq_ok_iff, unless?_eq_ok_iff, checkChild_eq_ok_iff]
  simp

/-- A parent passes if it is there and has the node as a child. -/
theorem checkOwner_expr_eq_ok_iff {id p : ExprId} :
    db.checkOwner id (.expr p) = .ok () ↔ ∃ ep, db.expr? p = some ep ∧ id ∈ ep.children := by
  simp only [checkOwner, unless?_eq_ok_iff, Expression.mem_children]
  cases db.expr? p <;> simp

/-- An owner passes if it is there and has the node as its root. -/
theorem checkOwner_stmt_eq_ok_iff {id : ExprId} {s : StmtId} :
    db.checkOwner id (.stmt s) = .ok () ↔ ∃ st, db.stmt? s = some st ∧ st.root = id := by
  simp only [checkOwner, unless?_eq_ok_iff]
  cases db.stmt? s <;> simp

/-- A statement passes if its root is there and belongs to it. -/
theorem checkStmt_eq_ok_iff {id : StmtId} {st : Statement} :
    db.checkStmt id st = .ok () ↔ ∃ e, db.expr? st.root = some e ∧ e.parent = .stmt id := by
  unfold checkStmt
  cases db.expr? st.root <;> simp [unless?_eq_ok_iff]

/-- A scope passes if all its members are there. -/
theorem checkScope_eq_ok_iff {id : ScopeId} {scope : Scope} :
    db.checkScope id scope = .ok () ↔
      (∀ s ∈ scope.statements, ∃ st, db.stmt? s = some st) ∧
      (∀ c ∈ scope.children, ∃ sc, db.scope? c = some sc) := by
  simp only [checkScope, seq_eq_ok_iff, forM_eq_ok_iff, unless?_eq_ok_iff,
    Option.isSome_iff_exists]

/-! ## The search for cycles -/

/-- The nodes above a node end at a top. -/
def Grounded (db : Database) (id : ExprId) : Prop := Acc (fun p c => db.Under c p) id

/-- A link leads to a grounded node or to none. -/
def LeadsUp (db : Database) (link : Link) : Prop := ∀ id, link = .expr id → db.Grounded id

/-- A node has one parent at most. -/
theorem Under.right_unique : Relator.RightUnique db.Under := by
  rintro c p p' ⟨e, he, hp⟩ ⟨e', he', hp'⟩
  cases he.symm.trans he'
  cases hp.symm.trans hp'
  rfl

/-- A node is grounded if its parent is. -/
theorem grounded_of_leadsUp {id : ExprId} {e : Expression} (h : db.expr? id = some e)
    (hp : db.LeadsUp e.parent) : db.Grounded id := by
  apply Acc.intro id
  rintro p ⟨e', he', hl⟩
  cases h.symm.trans he'
  exact hp p hl

/-- An id that names no node has nothing above it. -/
theorem grounded_of_none {id : ExprId} (h : db.expr? id = none) : db.Grounded id := by
  apply Acc.intro id
  rintro p ⟨e, he, -⟩
  cases h.symm.trans he

/-- What is known of the visits at any point of a climb: the nodes that are done are grounded, and
those on the path are as soon as the link that is to be followed leads up. -/
structure Climbing (db : Database) (visits : Array Visit) (path : List ExprId) (link : Link) :
    Prop where
  size : visits.size = db.exprs.size
  done {id : ExprId} : visits[id.index.toNat]? = some .done → db.Grounded id
  onPath {id : ExprId} : visits[id.index.toNat]? = some .onPath → id ∈ path
  node {id : ExprId} : id ∈ path → ∃ e, db.expr? id = some e
  path : db.LeadsUp link → ∀ id ∈ path, db.Grounded id

/-- The step of a climb puts a node that is new on the path. -/
theorem Climbing.push {visits : Array Visit} {path : List ExprId} {id : ExprId} {e : Expression}
    (h : Climbing db visits path (.expr id)) (he : db.expr? id = some e) :
    Climbing db (visits.setIfInBounds id.index.toNat .onPath) (id :: path) e.parent where
  size := by simpa using h.size
  done := by
    intro other hd
    rw [Array.getElem?_setIfInBounds] at hd
    split at hd
    · split at hd <;> cases hd
    · exact h.done hd
  onPath := by
    intro other ho
    rw [Array.getElem?_setIfInBounds] at ho
    split at ho
    · rename_i hi
      exact List.mem_cons.mpr (.inl (ExprId.toNat_index_inj.mp hi.symm))
    · exact List.mem_cons_of_mem _ (h.onPath ho)
  node := by
    intro other ho
    rcases List.mem_cons.mp ho with rfl | ho
    · exact ⟨e, he⟩
    · exact h.node ho
  path := by
    intro hup other ho
    have hid : db.Grounded id := grounded_of_leadsUp he hup
    rcases List.mem_cons.mp ho with rfl | ho
    · exact hid
    · refine h.path ?_ other ho
      intro _ hl
      cases hl
      exact hid

/-- Marking a new node leaves fewer new ones. -/
theorem count_new_setIfInBounds {visits : Array Visit} {i fuel : Nat}
    (hv : visits[i]? = some .new) (h : visits.count .new ≤ fuel + 1) :
    (visits.setIfInBounds i .onPath).count .new ≤ fuel := by
  obtain ⟨hi, hv⟩ := Array.getElem?_eq_some_iff.mp hv
  rw [Array.setIfInBounds_def, dif_pos hi, Array.count_set hi, hv]
  simp
  omega

/-- The fuel of a climb covers the new nodes, so that a climb ends at a node that is done, beyond
the nodes there are, or at a top; all of these lead up. -/
theorem climbPath_grounded {fuel : Nat} {visits visits' : Array Visit} {path path' : List ExprId}
    {link : Link} (hc : Climbing db visits path link) (hn : visits.count .new ≤ fuel)
    (h : db.climbPath fuel visits path link = .ok (visits', path')) :
    db.LeadsUp link ∧ ∃ link', db.LeadsUp link' ∧ Climbing db visits' path' link' := by
  have stop {visits : Array Visit} {path : List ExprId} {link : Link}
      (hc : Climbing db visits path link) (hup : db.LeadsUp link)
      (h : (.ok (visits, path) : Except Inconsistency _) = .ok (visits', path')) :
      db.LeadsUp link ∧ ∃ link', db.LeadsUp link' ∧ Climbing db visits' path' link' := by
    cases h
    exact ⟨hup, link, hup, hc⟩
  fun_induction climbPath db fuel visits path link with
  | case1 visits path id hv fuel e he ih =>
    obtain ⟨hup, hend⟩ := ih (hc.push he) (count_new_setIfInBounds hv hn) h
    refine ⟨?_, hend⟩
    intro id' hid
    cases hid
    exact grounded_of_leadsUp he hup
  | case2 fuel visits path id hv hnot =>
    refine stop hc ?_ h
    intro id' hid
    cases hid
    cases he : db.expr? id with
    | none => exact grounded_of_none he
    | some e =>
      -- The visits have a new node, so the fuel is not used up.
      have hpos : 0 < visits.count .new := Array.count_pos_iff.mpr (Array.mem_of_getElem? hv)
      obtain ⟨fuel, rfl⟩ := Nat.exists_eq_succ_of_ne_zero (by omega : fuel ≠ 0)
      exact (hnot fuel e rfl he).elim
  | case3 fuel visits path id hv => cases h
  | case4 fuel visits path id hnew hon =>
    refine stop hc ?_ h
    intro id' hid
    cases hid
    cases hv : visits[id.index.toNat]? with
    | none =>
      apply grounded_of_none
      rw [Array.getElem?_eq_none_iff, hc.size] at hv
      exact Array.getElem?_eq_none hv
    | some visit =>
      cases visit with
      | new => exact (hnew hv).elim
      | onPath => exact (hon hv).elim
      | done => exact hc.done hv
  | case5 fuel visits path link hnot =>
    refine stop hc ?_ h
    intro id hid
    exact (hnot id hid).elim

/-- What is known of the visits between two climbs. -/
structure Surveyed (db : Database) (visits : Array Visit) : Prop where
  size : visits.size = db.exprs.size
  done {id : ExprId} : visits[id.index.toNat]? = some .done → db.Grounded id
  onPath {id : ExprId} : visits[id.index.toNat]? ≠ some .onPath

/-- Before the search, nothing is marked. -/
theorem surveyed_start : Surveyed db (Array.replicate db.exprs.size .new) := by
  have new_of_some {id : ExprId} {v : Visit}
      (hv : (Array.replicate db.exprs.size Visit.new)[id.index.toNat]? = some v) : v = .new := by
    rw [Array.getElem?_replicate] at hv
    split at hv <;> cases hv
    rfl
  exact ⟨Array.size_replicate, fun hv => (nomatch new_of_some hv),
    fun hv => (nomatch new_of_some hv)⟩

/-- A climb starts with nothing on its path. -/
theorem Surveyed.climbing {visits : Array Visit} (hs : Surveyed db visits) (start : ExprId) :
    Climbing db visits [] (.expr start) where
  size := hs.size
  done := hs.done
  onPath ho := (hs.onPath ho).elim
  node hm := (List.not_mem_nil hm).elim
  path _ _ hm := (List.not_mem_nil hm).elim

theorem size_foldl_done (path : List ExprId) (visits : Array Visit) :
    (path.foldl (fun visits id => visits.setIfInBounds id.index.toNat .done) visits).size =
      visits.size := by
  induction path generalizing visits with
  | nil => rfl
  | cons a path ih => simp [ih]

/-- A path that is done is marked node by node, and nothing else is. -/
theorem getElem?_foldl_done {path : List ExprId} {visits : Array Visit} {id : ExprId} {v : Visit}
    (h : (path.foldl (fun visits id => visits.setIfInBounds id.index.toNat .done) visits)[id.index.toNat]?
      = some v) :
    (id ∈ path ∧ v = .done) ∨ (id ∉ path ∧ visits[id.index.toNat]? = some v) := by
  induction path generalizing visits with
  | nil => exact .inr ⟨List.not_mem_nil, h⟩
  | cons a path ih =>
    rcases ih h with ⟨hm, hv⟩ | ⟨hm, hv⟩
    · exact .inl ⟨List.mem_cons_of_mem _ hm, hv⟩
    · rw [Array.getElem?_setIfInBounds] at hv
      split at hv
      · rename_i hi
        have ha : a = id := ExprId.toNat_index_inj.mp hi
        split at hv
        · cases hv
          exact .inl ⟨List.mem_cons.mpr (.inl ha.symm), rfl⟩
        · cases hv
      · rename_i hi
        refine .inr ⟨?_, hv⟩
        rintro hm'
        rcases List.mem_cons.mp hm' with rfl | hm'
        · exact hi rfl
        · exact hm hm'

/-- A climb without objection shows its start to be grounded, and marks grounded nodes only. -/
theorem checkClimb_surveyed {visits visits' : Array Visit} {start : ExprId}
    (hs : Surveyed db visits) (h : db.checkClimb visits start = .ok visits') :
    db.Grounded start ∧ Surveyed db visits' := by
  obtain ⟨⟨climbed, path⟩, hclimb, hfold⟩ := bind_eq_ok_iff.mp h
  have hn : visits.count .new ≤ db.exprs.size := hs.size ▸ Array.count_le_size
  obtain ⟨hstart, link, hlink, hc'⟩ := climbPath_grounded (hs.climbing start) hn hclimb
  cases hfold
  refine ⟨hstart start rfl, ?_, ?_, ?_⟩
  · exact (size_foldl_done path climbed).trans hc'.size
  · intro id hd
    rcases getElem?_foldl_done hd with ⟨hm, -⟩ | ⟨-, hd⟩
    · exact hc'.path hlink id hm
    · exact hc'.done hd
  · intro id ho
    rcases getElem?_foldl_done ho with ⟨-, hv⟩ | ⟨hm, ho⟩
    · cases hv
    · exact hm (hc'.onPath ho)

/-- A search without objection shows all its starts to be grounded. -/
theorem foldlM_checkClimb_grounded {ids : List ExprId} {visits visits' : Array Visit}
    (hs : Surveyed db visits) (h : ids.foldlM db.checkClimb visits = .ok visits') :
    ∀ id ∈ ids, db.Grounded id := by
  induction ids generalizing visits with
  | nil => exact fun _ hm => (List.not_mem_nil hm).elim
  | cons a ids ih =>
    rw [List.foldlM_cons, bind_eq_ok_iff] at h
    obtain ⟨visits₁, h₁, h⟩ := h
    obtain ⟨ha, hs₁⟩ := checkClimb_surveyed hs h₁
    exact List.forall_mem_cons.mpr ⟨ha, ih hs₁ h⟩

/-- Where the search for cycles finds none, every node is grounded. -/
theorem grounded_of_checkAcyclic (h : db.checkAcyclic = .ok ()) (id : ExprId) :
    db.Grounded id := by
  obtain ⟨visits, h, -⟩ := bind_eq_ok_iff.mp h
  cases he : db.expr? id with
  | none => exact grounded_of_none he
  | some e => exact foldlM_checkClimb_grounded surveyed_start h id (mem_exprIds he)

/-- A grounded node is not above itself. -/
theorem Grounded.not_transGen {id : ExprId} (h : db.Grounded id) : ¬ TransGen db.Under id id := by
  induction h with
  | intro id _ ih =>
    intro hcycle
    obtain ⟨p, hp, hrest⟩ := TransGen.head'_iff.mp hcycle
    exact ih p hp (TransGen.tail' hrest hp)

/-- The check accepts forests only. -/
theorem forest_of_check (h : db.check = .ok ()) : db.Forest := by
  simp only [check, seq_eq_ok_iff, forM_eq_ok_iff, option_forM_eq_ok_iff] at h
  obtain ⟨hexprs, hstmts, hscopes, hacyclic⟩ := h
  have hexpr {id e} (he : db.expr? id = some e) :=
    checkExpr_eq_ok_iff.mp (hexprs id (mem_exprIds he) e he)
  have hscope {u sc} (hu : db.scope? u = some sc) :=
    checkScope_eq_ok_iff.mp (hscopes u (mem_scopeIds hu) sc hu)
  exact {
    distinct := fun he => (hexpr he).1
    child := fun he hc => (hexpr he).2.1 _ hc
    parent := fun he hp => checkOwner_expr_eq_ok_iff.mp (hp ▸ (hexpr he).2.2)
    owner := fun he hs => checkOwner_stmt_eq_ok_iff.mp (hs ▸ (hexpr he).2.2)
    root := fun hs => checkStmt_eq_ok_iff.mp (hstmts _ (mem_stmtIds hs) _ hs)
    statement := fun hu hs => (hscope hu).1 _ hs
    childScope := fun hu hc => (hscope hu).2 _ hc
    acyclic := fun id => (grounded_of_checkAcyclic hacyclic id).not_transGen }

/-- One statement: an AND gate over two signals that was driven false by its left input only. -/
def andGate : Database where
  exprs := #[
    { Expression.new .signal 1 7 with parent := .expr ⟨2⟩, wasFalse := true },
    { Expression.new .signal 1 7 with parent := .expr ⟨2⟩, wasTrue := true },
    { Expression.new .logicAnd 1 7 with left := some ⟨0⟩, right := some ⟨1⟩, parent := .stmt ⟨0⟩ }]
  stmts := #[⟨⟨2⟩, false⟩]
  scopes := #[⟨"top", .moduleScope, [⟨0⟩], [], .zero⟩]

/-- One statement: an AND chain of two gates over a signal that was false, a signal that is excluded,
and an OR gate over two signals of which nothing was seen. -/
def mixedGates : Database where
  exprs := #[
    { Expression.new .signal 1 7 with parent := .expr ⟨2⟩, wasFalse := true },
    { Expression.new .signal 1 7 with parent := .expr ⟨2⟩, excluded := true },
    { Expression.new .logicAnd 1 7 with left := some ⟨0⟩, right := some ⟨1⟩, parent := .expr ⟨6⟩ },
    { Expression.new .signal 1 7 with parent := .expr ⟨5⟩ },
    { Expression.new .signal 1 7 with parent := .expr ⟨5⟩ },
    { Expression.new .logicOr 1 7 with left := some ⟨3⟩, right := some ⟨4⟩, parent := .expr ⟨6⟩ },
    { Expression.new .logicAnd 1 7 with left := some ⟨2⟩, right := some ⟨5⟩, parent := .stmt ⟨0⟩ }]
  stmts := #[⟨⟨6⟩, false⟩]
  scopes := #[⟨"top", .moduleScope, [⟨0⟩], [], .zero⟩]

/-- The statement of `andGate` in two scopes, with numbers and statistics of which no scoring knows.
One of the scopes lists the statement twice. -/
def sharedGate : Database where
  exprs := #[
    { Expression.new .signal 1 7 with parent := .expr ⟨2⟩, wasFalse := true, underline := some 9 },
    { Expression.new .signal 1 7 with parent := .expr ⟨2⟩, wasTrue := true },
    { Expression.new .logicAnd 1 7 with
      left := some ⟨0⟩, right := some ⟨1⟩, parent := .stmt ⟨0⟩, underline := some 4 }]
  stmts := #[⟨⟨2⟩, false⟩]
  scopes := #[
    ⟨"top", .moduleScope, [⟨0⟩], [⟨1⟩], ⟨7, 9, 7, 5, 5, 5⟩⟩,
    ⟨"top.gate", .instanceScope, [⟨0⟩, ⟨0⟩], [], ⟨8, 2, 8, 6, 0, 6⟩⟩]

namespace Forest

variable (hf : db.Forest)

include hf

/-! ## Induction along the links -/

/-- What holds of a node as soon as it holds of its parent holds of every node. -/
theorem induction_up {P : ExprId → Prop}
    (step : ∀ id e, db.expr? id = some e → (∀ p, e.parent = .expr p → P p) → P id)
    {id : ExprId} {e : Expression} (h : db.expr? id = some e) : P id := by
  have : IsTrans ExprId (fun p c => TransGen db.Under c p) := ⟨fun _ _ _ hab hbc => hbc.trans hab⟩
  have : Std.Irrefl (fun p c : ExprId => TransGen db.Under c p) := ⟨hf.acyclic⟩
  have hwf := Finite.wellFounded_of_trans_of_irrefl (fun p c : ExprId => TransGen db.Under c p)
  induction id using hwf.induction generalizing e with
  | _ id ih =>
    apply step id e h
    intro p hp
    obtain ⟨ep, hep, -⟩ := hf.parent h hp
    exact ih p (.single ⟨e, h, hp⟩) hep

/-- What holds of a node as soon as it holds of its children holds of every node. -/
theorem induction_down {P : ExprId → Prop}
    (step : ∀ id e, db.expr? id = some e → (∀ c ∈ e.children, P c) → P id)
    {id : ExprId} {e : Expression} (h : db.expr? id = some e) : P id := by
  have : IsTrans ExprId (TransGen db.Under) := ⟨fun _ _ _ => TransGen.trans⟩
  have : Std.Irrefl (TransGen db.Under) := ⟨hf.acyclic⟩
  have hwf := Finite.wellFounded_of_trans_of_irrefl (TransGen db.Under)
  induction id using hwf.induction generalizing e with
  | _ id ih =>
    apply step id e h
    intro c hc
    obtain ⟨ec, hec, hl⟩ := hf.child h hc
    exact ih c (.single ⟨ec, hec, hl⟩) hec

end Forest

end Database

end LogicCoverage
