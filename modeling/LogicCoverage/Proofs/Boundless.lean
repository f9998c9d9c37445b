import LogicCoverage.Proofs.TreeScore

/-!
# Numbers without end

A scoring gives numbers of 32 bits, and fails when they run out. The same walk with natural numbers
never does, and so tells how many numbers a scoring would give: one to every node that awaits one.
As long as the numbers of a scoring last, they are those of the endless walk.
-/

namespace LogicCoverage

/-- A renewal whose numbers do not run out. -/
structure Boundless where
  number? : ExprId → Option Nat
  /-- The number to be given next. -/
  next : Nat

namespace Boundless

/-- Changes a node's number. -/
def set (b : Boundless) (id : ExprId) (number : Option Nat) : Boundless :=
  { b with number? := fun x => if x = id then number else b.number? x }

/-- Clears the number of an excluded node; gives one to another node of a unit that misses
something. -/
def visit (missing : Bool) (b : Boundless) (p : Point) : Boundless :=
  if p.excluded then b.set p.site none
  else if missing && (b.number? p.site).isNone then
    { b with next := b.next + 1 }.set p.site (some b.next)
  else b

/-- Goes through the points of a scored node or chain. -/
def unit (b : Boundless) (points : List Point) : Boundless :=
  (Underlining.firstPerSite [] points).foldl (visit (points.any Point.missing)) b

/-- Numbering that goes on after the highest number among the given nodes. -/
def start (db : Database) (nodes : List ExprId) : Boundless where
  number? x := (db.number? x).map UInt32.toNat
  next := (Underlining.highest db nodes).toNat + 1

/-- Goes through the points of a node where it sits. -/
def step (db : Database) (cfg : ScoringConfig) (b : Boundless) (e : Expression) (p : Placement) :
    Checked Boundless := do
  return b.unit ((← db.pointsAt e p cfg).getD [])

end Boundless

namespace Database

/-- The numbers after scoring the tree below a node, if they do not run out. -/
def renumber (db : Database) (root : ExprId) (cfg : ScoringConfig) : Checked Boundless := do
  let tree := db.tree root
  let start := Boundless.start db (← tree.postOrder)
  let (b, _) ← tree.visit (Boundless.step db cfg) 0 false start
  return b

/-- How many numbers scoring the tree below a node gives, if they do not run out. -/
def newNumbers (db : Database) (root : ExprId) (cfg : ScoringConfig) : Checked Nat := do
  let nodes ← db.subtree root
  return (← db.renumber root cfg).next - (Boundless.start db nodes).next

end Database

namespace Boundless

variable {b : Boundless} {u u' : Underlining} {muted : ExprId → Bool}

/-! ## How many numbers are given -/

/-- The same nodes have a number. -/
def Matches (b : Boundless) (u : Underlining) : Prop :=
  ∀ x, (b.number? x).isNone = (u.db.number? x).isNone

/-- A number that is set on both sides leaves them matching. -/
theorem Matches.set (h : b.Matches u) {x : ExprId} (hx : ∃ e, u.db.expr? x = some e)
    {number : Option Nat} {number' : Option UInt32} (hnumber : number.isNone = number'.isNone) :
    (b.set x number).Matches (u.set x number') := by
  obtain ⟨e, he⟩ := hx
  intro y
  rw [Boundless.set, Underlining.number?_set he]
  dsimp only
  split
  · exact hnumber
  · exact h y

/-- A visit gives a number to a newcomer that is met for the first time, and to nobody else. -/
theorem Matches.visit (h : b.Matches u) {p : Point} (hp : p.excluded = muted p.site)
    (hsite : ∃ e, u.db.expr? p.site = some e) (missing : Bool) :
    ∃ u', (b.visit missing p).Matches u' ∧
      (∀ y, (∃ e, u.db.expr? y = some e) → ∃ e, u'.db.expr? y = some e) ∧
      ∀ visits, (b.visit missing p).next + (u'.newcomers muted visits).length =
        b.next + (u.newcomers muted ((missing, p.site) :: visits)).length := by
  obtain ⟨e, he⟩ := hsite
  have hnone : (b.number? p.site).isNone = e.underline.isNone := by
    rw [h, Database.number?, he, Option.bind_some]
  rw [Boundless.visit, hp]
  cases hx : muted p.site with
  | true =>
    refine ⟨u.set p.site none, h.set ⟨e, he⟩ rfl, fun y hy => Underlining.exists_expr?_set hy _ _,
      fun visits => ?_⟩
    rw [Underlining.newcomers_cons_muted he hx]
    rfl
  | false =>
    rw [if_neg Bool.false_ne_true, hnone]
    by_cases hopen : missing = true ∧ e.underline.isNone = true
    · obtain ⟨rfl, hunder⟩ := hopen
      have hisOpen : u.isOpen muted p.site = true := by
        rw [Underlining.isOpen_eq he, hx, hunder]
        rfl
      rw [hunder, Bool.and_self, if_pos rfl]
      -- Only that there is a number has to match, not which one it is.
      refine ⟨u.set p.site (some u.next),
        Matches.set (b := { b with next := b.next + 1 }) h ⟨e, he⟩ rfl,
        fun y hy => Underlining.exists_expr?_set hy _ _, fun visits => ?_⟩
      rw [Underlining.newcomers_cons_open he hisOpen u.next]
      exact Nat.add_right_comm b.next 1 _
    · have hclosed : missing = true → u.isOpen muted p.site = false := fun hmissing => by
        rw [Underlining.isOpen_eq he, hx, Bool.eq_false_iff.mpr fun hunder =>
          hopen ⟨hmissing, hunder⟩]
        rfl
      rw [if_neg (by simpa using hopen)]
      exact ⟨u, h, fun _ hy => hy, fun visits => by rw [Underlining.newcomers_cons_closed hclosed]⟩

/-- Visits number the newcomers. -/
theorem Matches.next_foldl_visit {calls : List (Bool × Point)} (h : b.Matches u)
    (hm : ∀ v ∈ calls, v.2.excluded = muted v.2.site)
    (hs : ∀ v ∈ calls, ∃ e, u.db.expr? v.2.site = some e) :
    (calls.foldl (fun b v => b.visit v.1 v.2) b).next =
      b.next + (u.newcomers muted (calls.map fun v => (v.1, v.2.site))).length := by
  induction calls generalizing b u with
  | nil => simp [Underlining.newcomers]
  | cons v calls ih =>
    rw [List.forall_mem_cons] at hm hs
    obtain ⟨u', hmatch, hkeeps, hcount⟩ := h.visit hm.1 hs.1 v.1
    rw [List.foldl_cons, List.map_cons, ih hmatch hm.2 fun w hw => hkeeps _ (hs.2 w hw), hcount]

/-- Without a bound, as many numbers are given as there are newcomers. -/
theorem Matches.next_foldl_unit {units : List (List Point)} (h : b.Matches u)
    (hm : ∀ points ∈ units, ∀ p ∈ points, p.excluded = muted p.site)
    (hs : ∀ points ∈ units, ∀ p ∈ points, ∃ e, u.db.expr? p.site = some e) :
    (units.foldl Boundless.unit b).next =
      b.next + (u.newcomers muted (Underlining.visits units)).length := by
  have hwalk : units.foldl Boundless.unit b =
      (Underlining.calls units).foldl (fun b v => Boundless.visit v.1 b v.2) b := by
    clear h hm hs
    induction units generalizing b with
    | nil => rfl
    | cons points units ih =>
      simp only [List.foldl_cons, ih, Boundless.unit, Underlining.calls, List.flatMap_cons,
        List.foldl_append, List.foldl_map]
  rw [hwalk, Underlining.visits_eq_map_calls]
  refine h.next_foldl_visit (fun v hv => ?_) (fun v hv => ?_)
  · obtain ⟨points, hpoints, hp⟩ := Underlining.exists_unit_of_mem_calls hv
    exact hm points hpoints v.2 hp
  · obtain ⟨points, hpoints, hp⟩ := Underlining.exists_unit_of_mem_calls hv
    exact hs points hpoints v.2 hp

/-! ## Which numbers are given -/

/-- All numbers are the same. -/
structure Agrees (b : Boundless) (u : Underlining) : Prop where
  number? (x : ExprId) : b.number? x = (u.db.number? x).map UInt32.toNat
  next : b.next = u.next.toNat

/-- A number that is set on both sides leaves them agreeing. -/
theorem Agrees.set (h : b.Agrees u) {x : ExprId} (hx : ∃ e, u.db.expr? x = some e)
    (number : Option UInt32) : (b.set x (number.map UInt32.toNat)).Agrees (u.set x number) := by
  obtain ⟨e, he⟩ := hx
  refine ⟨fun y => ?_, h.next⟩
  rw [Boundless.set, Underlining.number?_set he]
  dsimp only
  split
  · rfl
  · exact h.number? y

/-- A visit for which there is a number gives that of the endless walk. -/
theorem Agrees.visit (h : b.Agrees u) {missing : Bool} {p : Point}
    (hvisit : Underlining.visit missing u p = .ok u') : (b.visit missing p).Agrees u' := by
  obtain ⟨current, hcurrent, hvisit⟩ := bind_eq_ok_iff.mp hvisit
  obtain ⟨e, he, hcurrent⟩ := bind_eq_ok_iff.mp hcurrent
  cases hcurrent
  replace he := u.db.expr_eq_ok_iff.mp he
  have hnone : (b.number? p.site).isNone = e.underline.isNone := by
    rw [h.number?, Option.isNone_map, Database.number?, he, Option.bind_some]
  rw [Boundless.visit, hnone]
  split at hvisit
  · rename_i hexcluded
    cases hvisit
    rw [if_pos hexcluded]
    exact h.set ⟨e, he⟩ none
  · rename_i hexcluded
    rw [if_neg hexcluded]
    split at hvisit
    · rename_i hopen
      obtain ⟨next, hnext, hvisit⟩ := bind_eq_ok_iff.mp hvisit
      cases hvisit
      have hmoved : Agrees { b with next := u.next.toNat + 1 } { u with next } :=
        ⟨h.number?, (Counter.addOr_eq_ok_iff.mp hnext).symm⟩
      rw [if_pos hopen, h.next]
      exact hmoved.set ⟨e, he⟩ (some u.next)
    · rename_i hopen
      cases hvisit
      rwa [if_neg hopen]

/-- A unit that is numbered within the bound is numbered alike without it. -/
theorem Agrees.unit (h : b.Agrees u) {points : List Point}
    (hunit : Underlining.unit u points = .ok u') : (b.unit points).Agrees u' := by
  rw [Underlining.unit] at hunit
  rw [Boundless.unit]
  generalize Underlining.firstPerSite [] points = visited at hunit ⊢
  induction visited generalizing b u with
  | nil =>
    cases hunit
    exact h
  | cons p visited ih =>
    obtain ⟨u₁, hvisit, hrest⟩ := bind_eq_ok_iff.mp hunit
    exact ih (h.visit hvisit) hrest

/-- Likewise for one unit after the other. -/
theorem Agrees.foldl_unit {units : List (List Point)} (h : b.Agrees u)
    (hunits : units.foldlM Underlining.unit u = .ok u') :
    (units.foldl Boundless.unit b).Agrees u' := by
  induction units generalizing b u with
  | nil =>
    cases hunits
    exact h
  | cons points units ih =>
    obtain ⟨u₁, hunit, hrest⟩ := bind_eq_ok_iff.mp hunits
    exact ih (h.unit hunit) hrest

end Boundless

namespace Database.Forest

variable {db : Database} (hf : db.Forest) {cfg : ScoringConfig} {stmt : StmtId} {st : Statement}
  (hs : db.stmt? stmt = some st) (hscorable : ∀ n ∈ db.nodes st.root, db.Scorable cfg n)

include hf hs hscorable

/-- The endless walk goes through the points of all nodes. -/
theorem renumber_eq : db.renumber st.root cfg =
    .ok ((db.units cfg st.root).foldl Boundless.unit (Boundless.start db (db.nodes st.root))) := by
  obtain ⟨er, her, -⟩ := hf.root hs
  have hpost : (db.tree st.root).postOrder = .ok (db.nodes st.root) := hf.subtree_eq her
  have hwalk (nodes : List ExprId) (hsub : ∀ n ∈ nodes, n ∈ db.nodes st.root) (b : Boundless) :
      nodes.foldlM (db.visitNode (Boundless.step db cfg)) b =
        .ok ((nodes.map (db.points cfg)).foldl Boundless.unit b) := by
    induction nodes generalizing b with
    | nil => rfl
    | cons n nodes ih =>
      rw [List.forall_mem_cons] at hsub
      obtain ⟨en, hen⟩ := hf.expr?_of_mem_nodes her hsub.1
      obtain ⟨o, ho⟩ := hscorable n hsub.1
      rw [List.foldlM_cons, hf.visitNode_eq hen, Boundless.step, ← hf.scoredPoints_eq hen, ho,
        List.map_cons, List.foldl_cons, points_of_scoredPoints ho]
      exact ih hsub.2 _
  simp only [renumber, hpost, hf.visit_root _ hs, hwalk _ fun _ hn => hn, bind, Except.bind]
  rfl

/-- Without an end of numbers, the nodes that await one are given one. -/
theorem newNumbers_eq : db.newNumbers st.root cfg = .ok (db.awaiting cfg st.root).length := by
  obtain ⟨er, her, -⟩ := hf.root hs
  let u : Underlining := ⟨db, 0⟩
  have hmatch : (Boundless.start db (db.nodes st.root)).Matches u := fun x => by
    rw [Boundless.start, Option.isNone_map]
  have hnext : ((db.units cfg st.root).foldl Boundless.unit
      (Boundless.start db (db.nodes st.root))).next =
      (Boundless.start db (db.nodes st.root)).next +
        (u.newcomers db.muted (Underlining.visits (db.units cfg st.root))).length :=
    hmatch.next_foldl_unit (fun _ hpoints => hf.excluded_of_mem_units her hpoints)
      fun _ hpoints => hf.exists_site_of_mem_units her hpoints
  rw [newNumbers, hf.subtree_eq her, ok_bind, hf.renumber_eq hs hscorable, ok_bind, hnext,
    hf.length_newcomers her rfl, Nat.add_sub_cancel_left]
  rfl

omit hscorable in
/-- The numbers that a scoring leaves are those of the endless walk. -/
theorem number?_eq_renumber {marks marks' : PassMarks}
    (hm : ∀ n ∈ db.nodes st.root, marks.counted n = false) {counts : TreeCounts} {db' : Database}
    (h : db.computeTree st.root cfg marks = .ok (counts, marks', db')) :
    ∃ b, db.renumber st.root cfg = .ok b ∧
      ∀ x, b.number? x = (db'.number? x).map UInt32.toNat := by
  obtain ⟨next, u', hnext, hunits, rfl⟩ := hf.units_of_computeTree hs hm h
  have hstart : (Boundless.start db (db.nodes st.root)).Agrees ⟨db, next⟩ :=
    ⟨fun _ => rfl, hnext.symm⟩
  exact ⟨_, hf.renumber_eq hs (hf.scored_of_computeTree hs hm h).scorable,
    (hstart.foldl_unit hunits).number?⟩

end Database.Forest

end LogicCoverage
