import LogicCoverage.Proofs.Descent

/-!
# What the check of consistency decides

The check accepts the forests and nothing else: where it objects to a cycle, some node stands above
itself. It reads no position that does not exist and follows no chain of links without end, whatever
the links are. In a forest the tree below a node lists the nodes that it is an ancestor of, and the
statement of a node is the one whose tree contains it.
-/

namespace LogicCoverage

open Relation

namespace Database

variable {db : Database}

/-! ## The search for cycles, and the forests that are accepted -/

/-- Every node on the path stands below the node that the link leads to. -/
def PathLeads (db : Database) (path : List ExprId) (link : Link) : Prop :=
  ∀ y ∈ path, ∀ id, link = .expr id → TransGen db.Under y id

/-- A step up leads on. -/
theorem PathLeads.push {path : List ExprId} {id : ExprId} {e : Expression}
    (h : db.PathLeads path (.expr id)) (he : db.expr? id = some e) :
    db.PathLeads (id :: path) e.parent := by
  intro y hy p hp
  have hstep : db.Under id p := ⟨e, he, hp⟩
  rcases List.mem_cons.mp hy with rfl | hy
  · exact .single hstep
  · exact (h y hy id rfl).tail hstep

/-- A node is grounded when no node on the way up from it, itself included, stands above itself. -/
theorem grounded_iff {id : ExprId} :
    db.Grounded id ↔ ∀ x, ReflTransGen db.Under id x → ¬ TransGen db.Under x x := by
  constructor
  · intro h x hx
    have hgrounded : db.Grounded x := by
      induction hx with
      | refl => exact h
      | tail _ hstep ih => exact ih.inv hstep
    exact hgrounded.not_transGen
  · intro h
    -- Among the nodes on the way up, of which there are finitely many, standing above is irreflexive.
    let Up := { x // ReflTransGen db.Under id x }
    let above (p c : Up) : Prop := TransGen db.Under c.1 p.1
    have : IsTrans Up above := ⟨fun _ _ _ hab hbc => hbc.trans hab⟩
    have : Std.Irrefl above := ⟨fun x => h x.1 x.2⟩
    have hwf := Finite.wellFounded_of_trans_of_irrefl above
    have hall (x : Up) : db.Grounded x.1 := by
      induction x using hwf.induction with
      | _ x ih =>
        apply Acc.intro
        intro p hp
        exact ih ⟨p, x.2.tail hp⟩ (.single hp)
    exact hall ⟨id, .refl⟩

/-- What is above a grounded node is grounded. -/
theorem Grounded.leadsUp {id : ExprId} {e : Expression} (h : db.Grounded id)
    (he : db.expr? id = some e) : db.LeadsUp e.parent :=
  fun _ hp => h.inv ⟨e, he, hp⟩

/-- A climb that leads up does not come back to its path. -/
theorem climbPath_ne_error {fuel : Nat} {visits : Array Visit} {path : List ExprId} {link : Link}
    {detail : Inconsistency} (hc : Climbing db visits path link) (hp : db.PathLeads path link)
    (hup : db.LeadsUp link) : db.climbPath fuel visits path link ≠ .error detail := by
  fun_induction climbPath db fuel visits path link with
  | case1 visits path id hv fuel e he ih =>
    exact ih (hc.push he) (hp.push he) ((hup id rfl).leadsUp he)
  | case2 => intro h; cases h
  | case3 fuel visits path id hv =>
    exact absurd (hp id (hc.onPath hv) id rfl) (hup id rfl).not_transGen
  | case4 => intro h; cases h
  | case5 => intro h; cases h

/-- A climb from a grounded node meets no objection. -/
theorem exists_checkClimb_ok {visits : Array Visit} {start : ExprId} (hs : Surveyed db visits)
    (h : db.Grounded start) : ∃ visits', db.checkClimb visits start = .ok visits' := by
  have hup : db.LeadsUp (.expr start) := by
    rintro _ ⟨rfl⟩
    exact h
  rw [checkClimb]
  cases hpath : db.climbPath db.exprs.size visits [] (.expr start) with
  | ok found => exact ⟨_, rfl⟩
  | error detail =>
    exact absurd hpath (climbPath_ne_error (hs.climbing start)
      (fun _ hm => (List.not_mem_nil hm).elim) hup)

/-- The search comes to its end just if it starts from grounded nodes only. -/
theorem foldlM_checkClimb_ok_iff {ids : List ExprId} {visits : Array Visit}
    (hs : Surveyed db visits) :
    (∃ visits', ids.foldlM db.checkClimb visits = .ok visits') ↔ ∀ id ∈ ids, db.Grounded id := by
  constructor
  · rintro ⟨visits', h⟩
    exact foldlM_checkClimb_grounded hs h
  · intro h
    induction ids generalizing visits with
    | nil => exact ⟨visits, rfl⟩
    | cons start ids ih =>
      rw [List.forall_mem_cons] at h
      obtain ⟨visits₁, hclimb⟩ := exists_checkClimb_ok hs h.1
      rw [List.foldlM_cons, hclimb]
      exact ih (checkClimb_surveyed hs hclimb).2 h.2

/-- The search for cycles finds none where there is none. -/
theorem checkAcyclic_of_acyclic (h : ∀ id, ¬ TransGen db.Under id id) :
    db.checkAcyclic = .ok () := by
  have hgrounded : ∀ id ∈ db.exprIds, db.Grounded id :=
    fun id _ => grounded_iff.mpr fun x _ => h x
  obtain ⟨visits, hsearch⟩ := (foldlM_checkClimb_ok_iff surveyed_start).mpr hgrounded
  rw [checkAcyclic, hsearch]
  rfl

/-- All links of a forest pass the check. -/
theorem Forest.check (hf : db.Forest) : db.check = .ok () := by
  simp only [Database.check, seq_eq_ok_iff, forM_eq_ok_iff, option_forM_eq_ok_iff]
  refine ⟨?_, ?_, ?_, checkAcyclic_of_acyclic hf.acyclic⟩
  · intro id _ e he
    refine checkExpr_eq_ok_iff.mpr ⟨hf.distinct he, fun c hc => hf.child he hc, ?_⟩
    cases hp : e.parent with
    | detached => rfl
    | expr p => exact checkOwner_expr_eq_ok_iff.mpr (hf.parent he hp)
    | stmt s => exact checkOwner_stmt_eq_ok_iff.mpr (hf.owner he hp)
  · intro id _ st hs
    exact checkStmt_eq_ok_iff.mpr (hf.root hs)
  · intro u _ scope hu
    exact checkScope_eq_ok_iff.mpr
      ⟨fun s hs => hf.statement hu hs, fun c hc => hf.childScope hu hc⟩

/-- The check accepts forests, and nothing else. -/
theorem check_eq_ok_iff : db.check = .ok () ↔ db.Forest := ⟨forest_of_check, Forest.check⟩

/-! ## No position is missed -/

/-- A link that leads to a node leads to one that exists. -/
def LinkExists (db : Database) (link : Link) : Prop :=
  ∀ id, link = .expr id → ∃ e, db.expr? id = some e

/-- Errors can be renamed step by step. -/
theorem mapError_bind {ε ε' α β : Type} (rename : ε → ε') (x : Except ε α) (f : α → Except ε β) :
    (x >>= f).mapError rename = x.mapError rename >>= fun a => (f a).mapError rename := by
  cases x <;> rfl

theorem mapError_eq_ok_iff {ε ε' α : Type} {rename : ε → ε'} {x : Except ε α} {a : α} :
    x.mapError rename = .ok a ↔ x = .ok a := by
  cases x <;> simp [Except.mapError]

theorem entry_eq_of_getElem? {α : Type} {xs : Array α} {i : UInt32} {x : α}
    (h : xs[i.toNat]? = some x) : entry xs i = .ok x :=
  entry_eq_ok_iff.mpr h

/-- With one step more than there are new nodes, a climb comes to an end, and each position that it
meets exists. -/
theorem climbFrom_eq {fuel : Nat} {visits : Array Visit} {path : List ExprId} {link : Link}
    (hlinks : ∀ id e, db.expr? id = some e → db.LinkExists e.parent)
    (hsize : visits.size = db.exprs.size) (hn : visits.count .new ≤ fuel)
    (hlink : db.LinkExists link) :
    db.climbFrom (fuel + 1) visits path link.expr? =
      (db.climbPath fuel visits path link).mapError .inconsistent := by
  fun_induction climbPath db fuel visits path link with
  | case1 visits path id hv fuel e he ih =>
    have hread : entry visits id.index = .ok .new := entry_eq_of_getElem? hv
    have hnode : db.expr id = .ok e := db.expr_eq_ok_iff.mpr he
    simp only [climbFrom, Link.expr?, hread, hnode, Except.mapError, bind, Except.bind]
    exact ih (by simpa using hsize) (count_new_setIfInBounds hv hn) (hlinks id e he)
  | case2 fuel visits path id hv hnot =>
    obtain ⟨e, he⟩ := hlink id rfl
    -- The visits have a new node, so the fuel is not used up.
    have hpos : 0 < visits.count .new := Array.count_pos_iff.mpr (Array.mem_of_getElem? hv)
    obtain ⟨fuel, rfl⟩ := Nat.exists_eq_succ_of_ne_zero (by omega : fuel ≠ 0)
    exact (hnot fuel e rfl he).elim
  | case3 fuel visits path id hv =>
    have hread : entry visits id.index = .ok .onPath := entry_eq_of_getElem? hv
    simp only [climbFrom, Link.expr?, hread, Except.mapError, bind, Except.bind]
  | case4 fuel visits path id hnew hon =>
    obtain ⟨e, he⟩ := hlink id rfl
    have hlt : id.index.toNat < visits.size := hsize ▸ (Array.getElem?_eq_some_iff.mp he).1
    cases hv : visits[id.index.toNat]? with
    | none => exact absurd hlt (Nat.not_lt.mpr (Array.getElem?_eq_none_iff.mp hv))
    | some visit =>
      cases visit with
      | new => exact (hnew hv).elim
      | onPath => exact (hon hv).elim
      | done =>
        have hread : entry visits id.index = .ok .done := entry_eq_of_getElem? hv
        simp only [climbFrom, Link.expr?, hread, Except.mapError, bind, Except.bind, pure,
          Except.pure]
  | case5 fuel visits path link hnot =>
    cases link with
    | expr id => exact (hnot id rfl).elim
    | detached => simp [climbFrom, Link.expr?, Except.mapError]
    | stmt s => simp [climbFrom, Link.expr?, Except.mapError]

/-- A path of nodes can be marked. -/
theorem foldlM_markDone {path : List ExprId} {visits : Array Visit}
    (h : ∀ id ∈ path, id.index.toNat < visits.size) :
    path.foldlM markDone visits =
      .ok (path.foldl (fun visits id => visits.setIfInBounds id.index.toNat .done) visits) := by
  induction path generalizing visits with
  | nil => rfl
  | cons id path ih =>
    rw [List.forall_mem_cons] at h
    have hread : entry visits id.index = .ok visits[id.index.toNat] :=
      entry_eq_of_getElem? (Array.getElem?_eq_getElem h.1)
    rw [List.foldlM_cons, markDone, hread]
    exact ih fun other ho => by simpa using h.2 other ho

section Search

variable (hlinks : ∀ id e, db.expr? id = some e → db.LinkExists e.parent)

include hlinks

/-- One search with every index checked objects to the same. -/
theorem searchFrom_eq {visits : Array Visit} (hs : Surveyed db visits) {start : ExprId}
    {e : Expression} (he : db.expr? start = some e) :
    db.searchFrom visits start = (db.checkClimb visits start).mapError .inconsistent := by
  have hn : visits.count .new ≤ db.exprs.size := hs.size ▸ Array.count_le_size
  have hstart : db.LinkExists (.expr start) := by
    rintro _ ⟨rfl⟩
    exact ⟨e, he⟩
  have hclimb : db.climbFrom (db.exprs.size + 1) visits [] (Link.expr start).expr? = _ :=
    climbFrom_eq hlinks hs.size hn hstart
  rw [searchFrom, checkClimb, ← Link.expr?, hclimb, mapError_bind]
  cases hpath : db.climbPath db.exprs.size visits [] (.expr start) with
  | error detail => rfl
  | ok found =>
    obtain ⟨visits', path⟩ := found
    obtain ⟨-, link, -, hc⟩ := climbPath_grounded (hs.climbing start) hn hpath
    refine foldlM_markDone fun id hid => ?_
    obtain ⟨ep, hep⟩ := hc.node hid
    rw [hc.size]
    exact (Array.getElem?_eq_some_iff.mp hep).1

/-- Likewise for one search after the other. -/
theorem foldlM_searchFrom {ids : List ExprId} {visits : Array Visit} (hs : Surveyed db visits)
    (hids : ∀ id ∈ ids, ∃ e, db.expr? id = some e) :
    ids.foldlM db.searchFrom visits =
      (ids.foldlM db.checkClimb visits).mapError .inconsistent := by
  induction ids generalizing visits with
  | nil => rfl
  | cons start ids ih =>
    rw [List.forall_mem_cons] at hids
    obtain ⟨⟨e, he⟩, hids⟩ := hids
    rw [List.foldlM_cons, List.foldlM_cons, mapError_bind, searchFrom_eq hlinks hs he]
    cases hclimb : db.checkClimb visits start with
    | error detail => rfl
    | ok visits₁ => exact ih (checkClimb_surveyed hs hclimb).2 hids

end Search

/-- Whatever the links are, the check meets no fault. -/
theorem validate_eq (db : Database) : db.validate = db.check.mapError .inconsistent := by
  rw [validate, check]
  simp only [mapError_bind]
  cases hexprs : db.exprIds.forM fun id => (db.expr? id).forM (db.checkExpr id) with
  | error detail => rfl
  | ok _ =>
    have hlinks : ∀ id e, db.expr? id = some e → db.LinkExists e.parent := by
      intro id e he p hp
      rw [forM_eq_ok_iff] at hexprs
      have hexpr := option_forM_eq_ok_iff.mp (hexprs id (mem_exprIds he)) e he
      obtain ⟨ep, hep, -⟩ :=
        checkOwner_expr_eq_ok_iff.mp (hp ▸ (checkExpr_eq_ok_iff.mp hexpr).2.2)
      exact ⟨ep, hep⟩
    rw [foldlM_searchFrom hlinks surveyed_start fun id => exists_expr?_of_mem, checkAcyclic,
      mapError_bind]
    rfl

/-! ## Trees and lineages of an accepted database -/

namespace Forest

variable (hf : db.Forest) {id : ExprId} {e : Expression}

include hf

/-- The ancestors of a node are the nodes strictly above it. -/
theorem ancestors_spec (h : db.expr? id = some e) :
    ∃ above, db.ancestors id = .ok above ∧ ∀ x, x ∈ above ↔ TransGen db.Under id x := by
  refine hf.induction_up (P := fun id => ∃ above, db.ancestors id = .ok above ∧
    ∀ x, x ∈ above ↔ TransGen db.Under id x) ?_ h
  intro id e he ih
  by_cases hp : ∃ p, e.parent = .expr p
  · obtain ⟨p, hp⟩ := hp
    obtain ⟨above, habove, hmem⟩ := ih p hp
    have hstep : db.Under id p := ⟨e, he, hp⟩
    refine ⟨p :: above, by rw [hf.ancestors_expr he hp, habove]; rfl, fun x => ?_⟩
    rw [List.mem_cons, hmem]
    constructor
    · rintro (rfl | hx)
      · exact .single hstep
      · exact hx.head hstep
    · intro hx
      obtain ⟨q, hq, hx⟩ := TransGen.head'_iff.mp hx
      cases Under.right_unique hstep hq
      exact reflTransGen_iff_eq_or_transGen.mp hx
  · have htop := parentExpr?_eq_none fun p h => hp ⟨p, h⟩
    refine ⟨[], ancestors_top he htop, fun x => ⟨nofun, fun hx => ?_⟩⟩
    obtain ⟨q, ⟨e', he', hq⟩, -⟩ := TransGen.head'_iff.mp hx
    cases he.symm.trans he'
    exact absurd ⟨q, hq⟩ hp

end Forest

end Database

end LogicCoverage
