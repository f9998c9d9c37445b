import LogicCoverage.Proofs.Fixpoint

/-!
# A tree that is walked again

A walk marks every node that it scores, so that a second walk in the same pass finds nothing to
score: it counts nothing and gives no number, whatever had been marked before the first one. It does
not run out of numbers either, since the first walk has stayed ahead of all that there are.
-/

namespace LogicCoverage

namespace Underlining

/-- On the way of a walk over nodes of a database: the next number to be given is higher than those
of the nodes. -/
structure Ahead (db : Database) (nodes : List ExprId) (u : Underlining) : Prop where
  unscored : u.db.unscored = db.unscored
  below {x : ExprId} {k : UInt32} : x ∈ nodes → u.db.number? x = some k → k < u.next

variable {db : Database} {nodes : List ExprId} {u u' : Underlining}

/-- A number below the next one may be given. -/
theorem Ahead.set (h : Ahead db nodes u) {x : ExprId} {e : Expression} (he : u.db.expr? x = some e)
    {next : UInt32} (hnext : u.next ≤ next) {number : Option UInt32}
    (hnumber : ∀ k, number = some k → k < next) :
    Ahead db nodes (Underlining.set { u with next } x number) where
  unscored := (Database.unscored_setUnderline x number).trans h.unscored
  below {y k} hy hk := by
    rw [number?_set (u := { u with next }) he] at hk
    split at hk
    · exact hnumber k hk
    · exact UInt32.lt_of_lt_of_le (h.below hy hk) hnext

/-- A visit keeps the walk ahead. -/
theorem Ahead.visit (h : Ahead db nodes u) {missing : Bool} {p : Point}
    (hvisit : visit missing u p = .ok u') : Ahead db nodes u' := by
  obtain ⟨number, hnumber, -⟩ := bind_eq_ok_iff.mp hvisit
  obtain ⟨e, he, -⟩ := bind_eq_ok_iff.mp hnumber
  have he := u.db.expr_eq_ok_iff.mp he
  cases hp : p.excluded with
  | true =>
    rw [visit_muted he hp] at hvisit
    cases hvisit
    exact h.set he (UInt32.le_refl _) nofun
  | false =>
    by_cases hopen : missing = true ∧ e.underline = none
    · obtain ⟨rfl, hnone⟩ := hopen
      rw [visit_open he hp hnone] at hvisit
      cases hnext : Counter.addOr .underlinesExhausted u.next 1 with
      | error fault =>
        rw [hnext] at hvisit
        cases hvisit
      | ok next =>
        rw [hnext] at hvisit
        cases hvisit
        have hlt : u.next < next := by
          rw [UInt32.lt_iff_toNat_lt, Counter.addOr_eq_ok_iff.mp hnext]
          exact Nat.lt_succ_self _
        refine h.set he (UInt32.le_of_lt hlt) ?_
        rintro _ ⟨⟩
        exact hlt
    · rw [visit_closed he hp fun hmissing hnone => hopen ⟨hmissing, hnone⟩] at hvisit
      cases hvisit
      exact h

/-- A unit keeps the walk ahead. -/
theorem Ahead.unit (h : Ahead db nodes u) {points : List Point} (hunit : unit u points = .ok u') :
    Ahead db nodes u' :=
  foldlM_invariant (fun _ _ _ _ hu hvisit => hu.visit hvisit) h hunit

/-- A numbering starts ahead of the numbers of its nodes. -/
theorem ahead_of_start (hstart : start db nodes = .ok u) : Ahead db nodes u := by
  rw [start_eq] at hstart
  cases hnext : Counter.addOr .underlinesExhausted (highest db nodes) 1 with
  | error fault =>
    rw [hnext] at hstart
    cases hstart
  | ok next =>
    rw [hnext] at hstart
    cases hstart
    refine ⟨rfl, fun {x k} hx hk => ?_⟩
    have hle : k.toNat ≤ (highest db nodes).toNat :=
      UInt32.le_iff_toNat_le.mp (le_highest hx hk)
    change k < next
    rw [UInt32.lt_iff_toNat_lt, Counter.addOr_eq_ok_iff.mp hnext]
    omega

/-- Where a numbering has got to, another one can start. -/
theorem Ahead.exists_start (h : Ahead db nodes u) :
    ∃ next, start u.db nodes = .ok ⟨u.db, next⟩ := by
  have hroom : (highest u.db nodes).toNat + 1 < UInt32.size := by
    rcases highest_mem nodes with hzero | ⟨x, hx, hk⟩
    · rw [hzero]
      decide
    · have hlt := UInt32.lt_iff_toNat_lt.mp (h.below hx hk)
      have hsize := u.next.toNat_lt_size
      omega
  refine ⟨highest u.db nodes + 1, ?_⟩
  rw [start_eq, Counter.addOr_eq_ok_iff.mpr]
  · rfl
  · rw [UInt32.toNat_add]
    exact Nat.mod_eq_of_lt hroom

end Underlining

/-! ## The first walk -/

/-- A walk over nodes of a database that has come past some of them. -/
structure TreeScore.Walked (db : Database) (cfg : ScoringConfig) (nodes done : List ExprId)
    (s : TreeScore) : Prop where
  ahead : s.underlining.Ahead db nodes
  counted {n : ExprId} {e : Expression} : n ∈ done → db.expr? n = some e →
    (db.place n).isScored e cfg = true → s.marks.counted n = true

namespace TreeScore.Walked

variable {db : Database} {cfg : ScoringConfig} {nodes done : List ExprId} {s s' : TreeScore}
  (h : Walked db cfg nodes done s) (hf : db.Forest)

include h hf

/-- A node that is visited is walked. -/
theorem step {n : ExprId} {e : Expression} (he : db.expr? n = some e)
    (hstep : db.visitNode (TreeScore.step db cfg) s n = .ok s') :
    Walked db cfg nodes (done ++ [n]) s' := by
  rw [hf.visitNode_eq he, TreeScore.step] at hstep
  have hcounted {marks : PassMarks} (hkept : ∀ x, s.marks.counted x = true → marks.counted x = true)
      (hn : (db.place n).isScored e cfg = true → marks.counted n = true) {x : ExprId}
      {ex : Expression} (hx : x ∈ done ++ [n]) (hex : db.expr? x = some ex)
      (hscored : (db.place x).isScored ex cfg = true) : marks.counted x = true := by
    rcases List.mem_append.mp hx with hx | hx
    · exact hkept x (h.counted hx hex hscored)
    · cases List.mem_singleton.mp hx
      cases he.symm.trans hex
      exact hn hscored
  -- the node is marked in this step, or it was marked before, or it is not scored
  split at hstep <;> rename_i hscored
  · have hkept (x : ExprId) (hx : s.marks.counted x = true) :
        (s.marks.mark n).counted x = true := by
      rw [PassMarks.counted_mark, hx, Bool.true_or]
    have hself : (s.marks.mark n).counted n = true := by
      rw [PassMarks.counted_mark, decide_eq_true rfl, Bool.or_true]
    obtain ⟨points, -, hstep⟩ := bind_eq_ok_iff.mp hstep
    cases points with
    | none =>
      cases hstep
      exact ⟨h.ahead, hcounted hkept fun _ => hself⟩
    | some points =>
      obtain ⟨counts, -, hstep⟩ := bind_eq_ok_iff.mp hstep
      obtain ⟨underlining, hunit, hstep⟩ := bind_eq_ok_iff.mp hstep
      cases hstep
      exact ⟨h.ahead.unit hunit, hcounted hkept fun _ => hself⟩
  · cases hstep
    refine ⟨h.ahead, hcounted (fun _ hx => hx) fun hn => ?_⟩
    rw [hn, Bool.true_and, Bool.not_eq_true', Bool.not_eq_false] at hscored
    exact hscored

/-- Nodes that are visited one after the other are walked. -/
theorem foldlM {l : List ExprId} (hex : ∀ n ∈ l, ∃ e, db.expr? n = some e)
    (hfold : l.foldlM (db.visitNode (TreeScore.step db cfg)) s = .ok s') :
    Walked db cfg nodes (done ++ l) s' := by
  induction l generalizing done s with
  | nil =>
    cases hfold
    rwa [List.append_nil]
  | cons n l ih =>
    rw [List.forall_mem_cons] at hex
    obtain ⟨⟨e, he⟩, hex⟩ := hex
    rw [List.foldlM_cons] at hfold
    obtain ⟨s₁, hstep, hfold⟩ := bind_eq_ok_iff.mp hfold
    have hrest := ih (h.step hf he hstep) hex hfold
    rwa [List.append_assoc] at hrest

end TreeScore.Walked

/-! ## The second walk -/

namespace Database

variable {db db' : Database} {cfg : ScoringConfig} {id : StmtId} {st : Statement}
  {marks marks' : PassMarks} {counts : TreeCounts}

/-- A node that was counted, or would not be scored anyway, is passed over. -/
theorem Forest.visitNode_eq_self (hf : db.Forest) {s : TreeScore} {n : ExprId} {e : Expression}
    (he : db.expr? n = some e)
    (hcounted : (db.place n).isScored e cfg = true → s.marks.counted n = true) :
    db.visitNode (TreeScore.step db cfg) s n = .ok s := by
  rw [hf.visitNode_eq he, TreeScore.step]
  refine if_neg fun hopen => ?_
  rw [Bool.and_eq_true, Bool.not_eq_true'] at hopen
  exact Bool.eq_false_iff.mp hopen.2 (hcounted hopen.1)

/-- A statement's tree that is scored again in the same pass counts nothing and stays as it is. -/
theorem Forest.computeTree_again (hf : db.Forest) (hs : db.stmt? id = some st)
    (h : db.computeTree st.root cfg marks = .ok (counts, marks', db')) :
    db'.computeTree st.root cfg marks' = .ok (.zero, marks', db') := by
  obtain ⟨er, her, -⟩ := hf.root hs
  have hex (n : ExprId) (hn : n ∈ db.nodes st.root) := hf.expr?_of_mem_nodes her hn
  rw [hf.computeTree_eq hs] at h
  obtain ⟨u, hstart, h⟩ := bind_eq_ok_iff.mp h
  obtain ⟨s, hfold, h⟩ := bind_eq_ok_iff.mp h
  cases h
  have hinit : TreeScore.Walked db cfg (db.nodes st.root) [] ⟨.zero, marks, u⟩ :=
    ⟨Underlining.ahead_of_start hstart, fun hn => absurd hn List.not_mem_nil⟩
  have hwalk := hinit.foldlM hf hex hfold
  rw [List.nil_append] at hwalk
  have hb := bare_eq_of_unscored hwalk.ahead.unscored
  have hs' : s.underlining.db.stmt? id = some st := by
    rwa [stmt?_eq_of_unscored hwalk.ahead.unscored]
  obtain ⟨next, hstart'⟩ := hwalk.ahead.exists_start
  rw [(hf.congr hb).computeTree_eq hs', nodes_congr hb, hstart', ok_bind, foldlM_eq_self]
  · rfl
  intro n hn
  obtain ⟨e, he⟩ := hex n hn
  obtain ⟨e', he', hbare⟩ := exists_expr?_of_bare hb he
  refine (hf.congr hb).visitNode_eq_self he' fun hscored => ?_
  rw [isScored_congr hb hbare] at hscored
  exact hwalk.counted hn he hscored

end Database

end LogicCoverage
