import LogicCoverage.Proofs.Bare
import LogicCoverage.Underlining

/-!
# The numbers a renewal gives

A renewal goes through the points of scored nodes one visit at a time. Its effect on every number
has a closed form: visited nodes that are excluded lose theirs, the newcomers are numbered in the
order in which they are first met, and all others keep what they have. It fails when the newcomers
are more than the numbers left.
-/

namespace LogicCoverage

namespace Database

/-- The number under which a report lists a node. -/
def number? (db : Database) (id : ExprId) : Option UInt32 := (db.expr? id).bind (·.underline)

variable {db : Database}

/-- A search by number looks at the number. -/
theorem any_underline_iff {id : ExprId} {n : UInt32} :
    ((db.expr? id).any fun e => e.underline = some n) = true ↔ db.number? id = some n := by
  rw [number?]
  cases db.expr? id <;> simp

/-- A number is a score. -/
theorem unscored_setUnderline (id : ExprId) (number : Option UInt32) :
    (db.setUnderline id number).unscored = db.unscored := by
  have hexprs : (db.exprs.modify id.index.toNat fun e => { e with underline := number }).map
      Expression.unscored = db.exprs.map Expression.unscored :=
    map_modify_of_comp (fun _ => by rfl) _ _
  simp only [unscored, setUnderline, modifyExpr, hexprs]

/-- One node gets the number; all others keep theirs. -/
theorem number?_setUnderline {id : ExprId} {e : Expression} (h : db.expr? id = some e)
    (number : Option UInt32) (x : ExprId) :
    (db.setUnderline id number).number? x = if x = id then number else db.number? x := by
  rw [number?, setUnderline, expr?_modifyExpr]
  split
  · rename_i hx
    rw [hx, h]
    rfl
  · rfl

end Database

namespace Underlining

/-- A node whose number is called for is not muted and has none. -/
def isOpen (muted : ExprId → Bool) (u : Underlining) (x : ExprId) : Bool :=
  !muted x && (u.db.number? x).isNone

/-- The nodes that visits number, in the order in which they are met. A visit is that of a unit that
misses something, or of one that does not. -/
def newcomers (muted : ExprId → Bool) (u : Underlining) (visits : List (Bool × ExprId)) :
    List ExprId :=
  (((visits.filter (·.1)).map (·.2)).filter (u.isOpen muted)).eraseDups

/-- The number of a node after visits. -/
def renewed (muted : ExprId → Bool) (u : Underlining) (visits : List (Bool × ExprId)) (x : ExprId) :
    Option UInt32 :=
  if muted x = true ∧ x ∈ visits.map (·.2) then none
  else if x ∈ u.newcomers muted visits then
    some (u.next + UInt32.ofNat ((u.newcomers muted visits).idxOf x))
  else u.db.number? x

variable {muted : ExprId → Bool} {u u' : Underlining} {x : ExprId}

/-- Newcomers are the nodes that are visited for a unit that misses something, and are open. -/
theorem mem_newcomers {visits : List (Bool × ExprId)} :
    x ∈ u.newcomers muted visits ↔ (true, x) ∈ visits ∧ u.isOpen muted x = true := by
  simp [newcomers]

theorem nodup_eraseDups {α : Type} [BEq α] [LawfulBEq α] (l : List α) : l.eraseDups.Nodup := by
  induction hn : l.length using Nat.strong_induction_on generalizing l with
  | _ n ih =>
    cases l with
    | nil => exact List.nodup_nil
    | cons a l =>
      have hlen : (l.filter fun b => !b == a).length < n :=
        hn ▸ Nat.lt_succ_of_le (List.length_filter_le _ l)
      rw [List.eraseDups_cons, List.nodup_cons]
      refine ⟨?_, ih _ hlen _ rfl⟩
      simp

/-- Each newcomer is numbered once. -/
theorem nodup_newcomers {visits : List (Bool × ExprId)} : (u.newcomers muted visits).Nodup :=
  nodup_eraseDups _

/-! ## One visit -/

/-- A muted node loses its number. -/
theorem visit_muted {e : Expression} {p : Point} (h : u.db.expr? p.site = some e)
    (hp : p.excluded = true) (missing : Bool) : visit missing u p = .ok (u.set p.site none) := by
  simp [visit, current, u.db.expr_eq_ok_iff.mpr h, hp, bind, Except.bind, pure, Except.pure]

/-- An open node of a unit that misses something gets the next number. -/
theorem visit_open {e : Expression} {p : Point} (h : u.db.expr? p.site = some e)
    (hp : p.excluded = false) (hn : e.underline = none) :
    visit true u p = (Counter.addOr .underlinesExhausted u.next 1).map fun next =>
      { u with next }.set p.site (some u.next) := by
  simp only [visit, current, u.db.expr_eq_ok_iff.mpr h, hp, hn, bind, Except.bind, pure,
    Except.pure]
  cases Counter.addOr .underlinesExhausted u.next 1 <;> rfl

/-- All other visits change nothing. -/
theorem visit_closed {e : Expression} {p : Point} (h : u.db.expr? p.site = some e)
    (hp : p.excluded = false) {missing : Bool} (hn : missing = true → e.underline ≠ none) :
    visit missing u p = .ok u := by
  simp only [visit, current, u.db.expr_eq_ok_iff.mpr h, hp, bind, Except.bind, pure, Except.pure]
  cases missing with
  | false => rfl
  | true =>
    obtain ⟨n, hn⟩ := Option.ne_none_iff_exists'.mp (hn rfl)
    simp [hn]

theorem isOpen_eq {e : Expression} (h : u.db.expr? x = some e) :
    u.isOpen muted x = (!muted x && e.underline.isNone) := by
  rw [isOpen, Database.number?, h]
  rfl

@[simp] theorem next_set (u : Underlining) (x : ExprId) (number : Option UInt32) :
    (u.set x number).next = u.next := rfl

/-- One node gets the number; all others keep theirs. -/
theorem number?_set {e : Expression} (h : u.db.expr? x = some e) (number : Option UInt32)
    (y : ExprId) :
    (u.set x number).db.number? y = if y = x then number else u.db.number? y :=
  Database.number?_setUnderline h number y

/-- A node that was given a number is not open any more. -/
theorem isOpen_set {e : Expression} (h : u.db.expr? x = some e) (number : Option UInt32)
    (y : ExprId) :
    (u.set x number).isOpen muted y =
      if y = x then !muted x && number.isNone else u.isOpen muted y := by
  rw [isOpen, number?_set h]
  split
  · rename_i hy
    rw [hy]
  · rfl

theorem exists_expr?_set {y : ExprId} (h : ∃ e, u.db.expr? y = some e) (x : ExprId)
    (number : Option UInt32) : ∃ e, (u.set x number).db.expr? y = some e := by
  obtain ⟨e, he⟩ := h
  rw [set, Database.setUnderline, Database.expr?_modifyExpr, he]
  split <;> exact ⟨_, rfl⟩

/-! ## Visits -/

/-- What visits have done. -/
structure Renewal (muted : ExprId → Bool) (visits : List (Bool × ExprId)) (u u' : Underlining) :
    Prop where
  next : u'.next.toNat = u.next.toNat + (u.newcomers muted visits).length
  unscored : u'.db.unscored = u.db.unscored
  scopes : u'.db.scopes = u.db.scopes
  number? (y : ExprId) : u'.db.number? y = u.renewed muted visits y

section Cons

variable {missing : Bool} {visits : List (Bool × ExprId)} {e : Expression}
  (h : u.db.expr? x = some e)

include h

/-- A muted node loses its number and is no newcomer. -/
theorem newcomers_cons_muted (hx : muted x = true) :
    u.newcomers muted ((missing, x) :: visits) = (u.set x none).newcomers muted visits := by
  have hopen : (u.set x none).isOpen muted = u.isOpen muted := by
    funext y
    rw [isOpen_set h]
    split
    · rename_i hy
      rw [hy, isOpen, hx]
      rfl
    · rfl
  rw [newcomers, newcomers, hopen]
  cases missing <;> simp [isOpen, hx]

/-- A newcomer is numbered at its first visit. -/
theorem newcomers_cons_open (hx : u.isOpen muted x = true) (next : UInt32) :
    u.newcomers muted ((true, x) :: visits) =
      x :: (Underlining.set { u with next } x (some u.next)).newcomers muted visits := by
  have hopen : (Underlining.set { u with next } x (some u.next)).isOpen muted =
      fun y => (!y == x) && u.isOpen muted y := by
    funext y
    rw [isOpen_set (u := { u with next }) h]
    split <;> rename_i hy
    · simp [hy]
    · rw [beq_eq_false_iff_ne.mpr hy]
      rfl
  rw [newcomers, newcomers, hopen, ← List.filter_filter]
  simp [hx, List.eraseDups_cons]

omit h in
/-- Another node is left alone. -/
theorem newcomers_cons_closed (hx : missing = true → u.isOpen muted x = false) :
    u.newcomers muted ((missing, x) :: visits) = u.newcomers muted visits := by
  rw [newcomers, newcomers]
  cases missing with
  | false => rfl
  | true => simp [hx rfl]

/-- What is done after the number of a muted node was cleared, seen from before. -/
theorem Renewal.cons_muted (hx : muted x = true)
    (hr : Renewal muted visits (u.set x none) u') :
    Renewal muted ((missing, x) :: visits) u u' where
  next := by
    rw [newcomers_cons_muted h hx]
    exact hr.next
  unscored := hr.unscored.trans (Database.unscored_setUnderline x none)
  scopes := hr.scopes
  number? y := by
    have hnew : x ∉ (u.set x none).newcomers muted visits := by
      rw [mem_newcomers, isOpen, hx]
      simp
    rw [hr.number?, renewed, renewed, newcomers_cons_muted h hx, number?_set h]
    by_cases hy : y = x
    · subst hy
      simp [hx, hnew]
    · simp [hy]

/-- What is done after an open node was numbered, seen from before. -/
theorem Renewal.cons_open (hx : u.isOpen muted x = true) {next : UInt32}
    (hnext : next.toNat = u.next.toNat + 1)
    (hr : Renewal muted visits (Underlining.set { u with next } x (some u.next)) u') :
    Renewal muted ((true, x) :: visits) u u' where
  next := by
    rw [hr.next, newcomers_cons_open h hx next, List.length_cons]
    change next.toNat + _ = _
    omega
  unscored := hr.unscored.trans (Database.unscored_setUnderline x (some u.next))
  scopes := hr.scopes
  number? y := by
    have hmuted : muted x = false := by
      rw [isOpen, Bool.and_eq_true, Bool.not_eq_true'] at hx
      exact hx.1
    have hnew : x ∉ (Underlining.set { u with next } x (some u.next)).newcomers muted visits := by
      rw [mem_newcomers, isOpen_set (u := { u with next }) h]
      simp
    rw [hr.number?, renewed, renewed, newcomers_cons_open h hx next,
      number?_set (u := { u with next }) h]
    by_cases hy : y = x
    · subst hy
      simp [hmuted, hnew]
    · have hadd (k : UInt32) : next + k = u.next + (k + 1) := by
        have hone : next = u.next + 1 := by
          have := next.toNat_lt_size
          apply UInt32.toNat_inj.mp
          rw [UInt32.toNat_add, hnext]
          exact (Nat.mod_eq_of_lt (hnext ▸ this)).symm
        rw [hone, UInt32.add_assoc, UInt32.add_comm 1 k]
      have hxy : (x == y) = false := beq_eq_false_iff_ne.mpr fun h => hy h.symm
      simp [hy, List.idxOf_cons, hxy, hadd]

omit h in
/-- What is done after a visit that changed nothing. -/
theorem Renewal.cons_closed (hm : muted x = false)
    (hx : missing = true → u.isOpen muted x = false) (hr : Renewal muted visits u u') :
    Renewal muted ((missing, x) :: visits) u u' where
  next := by
    rw [newcomers_cons_closed hx]
    exact hr.next
  unscored := hr.unscored
  scopes := hr.scopes
  number? y := by
    rw [hr.number?, renewed, renewed, newcomers_cons_closed hx]
    by_cases hy : y = x
    · subst hy
      simp [hm]
    · simp [hy]


end Cons

/-- How visits end: with everybody numbered if there is a number for every newcomer, and without a
result otherwise. -/
inductive Outcome (muted : ExprId → Bool) (visits : List (Bool × ExprId)) (u : Underlining) :
    Checked Underlining → Prop where
  | renewed {u' : Underlining} :
    u.next.toNat + (u.newcomers muted visits).length < UInt32.size → Renewal muted visits u u' →
      Outcome muted visits u (.ok u')
  | exhausted : ¬ u.next.toNat + (u.newcomers muted visits).length < UInt32.size →
    Outcome muted visits u (.error .underlinesExhausted)

namespace Outcome

variable {missing : Bool} {visits : List (Bool × ExprId)} {e : Expression}
  {walk : Checked Underlining}

/-- How visits turn out if the first is of a muted node. -/
theorem cons_muted (h : u.db.expr? x = some e) (hx : muted x = true)
    (ho : Outcome muted visits (u.set x none) walk) :
    Outcome muted ((missing, x) :: visits) u walk := by
  cases ho with
  | renewed hroom hr => exact .renewed (newcomers_cons_muted h hx ▸ hroom) (hr.cons_muted h hx)
  | exhausted hroom => exact .exhausted (newcomers_cons_muted h hx ▸ hroom)

/-- How visits turn out if the first is of an open node. -/
theorem cons_open (h : u.db.expr? x = some e) (hx : u.isOpen muted x = true) {next : UInt32}
    (hnext : next.toNat = u.next.toNat + 1)
    (ho : Outcome muted visits (Underlining.set { u with next } x (some u.next)) walk) :
    Outcome muted ((true, x) :: visits) u walk := by
  have hlen : (u.newcomers muted ((true, x) :: visits)).length = _ :=
    congrArg List.length (newcomers_cons_open h hx next)
  rw [List.length_cons] at hlen
  cases ho with
  | renewed hroom hr =>
    change next.toNat + _ < _ at hroom
    exact .renewed (by omega) (hr.cons_open h hx hnext)
  | exhausted hroom =>
    change ¬ next.toNat + _ < _ at hroom
    exact .exhausted (by omega)

/-- How visits turn out if the first changes nothing. -/
theorem cons_closed (hm : muted x = false) (hx : missing = true → u.isOpen muted x = false)
    (ho : Outcome muted visits u walk) : Outcome muted ((missing, x) :: visits) u walk := by
  have hnew : u.newcomers muted ((missing, x) :: visits) = u.newcomers muted visits :=
    newcomers_cons_closed hx
  cases ho with
  | renewed hroom hr => exact .renewed (by rwa [hnew]) (hr.cons_closed hm hx)
  | exhausted hroom => exact .exhausted (by rwa [hnew])

end Outcome

/-- A walk of visits turns out as the newcomers say: it numbers them, or runs out of numbers. -/
theorem foldlM_visit {visits : List (Bool × Point)}
    (hm : ∀ v ∈ visits, v.2.excluded = muted v.2.site)
    (hs : ∀ v ∈ visits, ∃ e, u.db.expr? v.2.site = some e) :
    Outcome muted (visits.map fun v => (v.1, v.2.site)) u
      (visits.foldlM (fun u v => visit v.1 u v.2) u) := by
  induction visits generalizing u with
  | nil =>
    refine .renewed ?_ ⟨?_, rfl, rfl, fun y => ?_⟩
    · simpa [newcomers] using u.next.toNat_lt_size
    · simp [newcomers]
    · simp [renewed, newcomers]
  | cons v visits ih =>
    obtain ⟨missing, p⟩ := v
    rw [List.forall_mem_cons] at hm hs
    obtain ⟨hp, hm⟩ := hm
    obtain ⟨⟨e, he⟩, hs⟩ := hs
    simp only at hp he
    rw [List.foldlM_cons, List.map_cons]
    cases hx : muted p.site with
    | true =>
      rw [visit_muted he (hp.trans hx)]
      exact (ih hm fun v hv => exists_expr?_set (hs v hv) _ none).cons_muted he hx
    | false =>
      by_cases hopen : missing = true ∧ u.isOpen muted p.site = true
      · obtain ⟨rfl, hopen⟩ := hopen
        have hnone : e.underline = none := by simpa [isOpen_eq he, hx] using hopen
        rw [visit_open he (hp.trans hx) hnone]
        cases hnext : Counter.addOr .underlinesExhausted u.next 1 with
        | ok next =>
          have hend := ih (u := Underlining.set { u with next } p.site (some u.next)) hm
            fun v hv => exists_expr?_set (u := { u with next }) (hs v hv) _ _
          exact hend.cons_open he hopen (Counter.addOr_eq_ok_iff.mp hnext)
        | error fault =>
          rw [Counter.addOr] at hnext
          split at hnext <;> cases hnext
          rename_i hroom
          -- the last number is handed out before the counter fails to move on
          refine .exhausted ?_
          rw [newcomers_cons_open he hopen u.next, List.length_cons]
          omega
      · have hclosed : missing = true → u.isOpen muted p.site = false := fun h =>
          Bool.eq_false_iff.mpr fun ho => hopen ⟨h, ho⟩
        have hsome : missing = true → e.underline ≠ none := by
          intro h hnone
          have := hclosed h
          simp [isOpen_eq he, hx, hnone] at this
        rw [visit_closed he (hp.trans hx) hsome]
        exact (ih hm hs).cons_closed hx hclosed

/-! ## Units -/

/-- The first points of their sites are some of the points. -/
theorem mem_of_mem_firstPerSite {points : List Point} {seen : List ExprId} {p : Point}
    (h : p ∈ firstPerSite seen points) : p ∈ points := by
  induction points generalizing seen with
  | nil => exact h
  | cons q points ih =>
    rw [firstPerSite] at h
    split at h
    · exact List.mem_cons_of_mem q (ih h)
    · rcases List.mem_cons.mp h with rfl | h
      · exact List.mem_cons_self
      · exact List.mem_cons_of_mem q (ih h)

/-- Every site that was not seen before has a first point. -/
theorem mem_site_firstPerSite {points : List Point} {seen : List ExprId}
    (h : x ∈ points.map Point.site) (hx : x ∉ seen) :
    x ∈ (firstPerSite seen points).map Point.site := by
  induction points generalizing seen with
  | nil => exact h
  | cons q points ih =>
    rw [List.map_cons, List.mem_cons] at h
    rw [firstPerSite]
    split <;> rename_i hq
    · rcases h with rfl | h
      · exact (hx (List.contains_iff_mem.mp hq)).elim
      · exact ih h hx
    · rw [List.map_cons, List.mem_cons]
      by_cases hxq : x = q.site
      · exact .inl hxq
      · refine .inr (ih (h.resolve_left hxq) ?_)
        rw [List.mem_cons, not_or]
        exact ⟨hxq, hx⟩

/-- The visits that the points of scored nodes make. -/
def visits (units : List (List Point)) : List (Bool × ExprId) :=
  units.flatMap fun points =>
    (firstPerSite [] points).map fun p => (points.any Point.missing, p.site)

/-- A node is visited for every unit that has a point at it. -/
theorem mem_visits {units : List (List Point)} {missing : Bool} :
    (missing, x) ∈ visits units ↔
      ∃ points ∈ units, points.any Point.missing = missing ∧ x ∈ points.map Point.site := by
  simp only [visits, List.mem_flatMap, List.mem_map, Prod.mk.injEq]
  refine exists_congr fun points => and_congr_right fun _ => ?_
  constructor
  · rintro ⟨p, hp, hmiss, rfl⟩
    exact ⟨hmiss, p, mem_of_mem_firstPerSite hp, rfl⟩
  · rintro ⟨hmiss, hx⟩
    obtain ⟨p, hp, hpx⟩ := List.mem_map.mp
      (mem_site_firstPerSite (List.mem_map.mpr hx) List.not_mem_nil)
    exact ⟨p, hp, hmiss, hpx⟩

/-- The points that a renewal of units looks at, each with whether its unit misses something. -/
def calls (units : List (List Point)) : List (Bool × Point) :=
  units.flatMap fun points => (firstPerSite [] points).map fun p => (points.any Point.missing, p)

/-- Visits only read the site of a point. -/
theorem visits_eq_map_calls (units : List (List Point)) :
    visits units = (calls units).map fun v => (v.1, v.2.site) := by
  simp [visits, calls, List.map_flatMap, Function.comp_def]

theorem exists_unit_of_mem_calls {units : List (List Point)} {v : Bool × Point}
    (h : v ∈ calls units) : ∃ points ∈ units, v.2 ∈ points := by
  obtain ⟨points, hpoints, hv⟩ := List.mem_flatMap.mp h
  obtain ⟨p, hp, rfl⟩ := List.mem_map.mp hv
  exact ⟨points, hpoints, mem_of_mem_firstPerSite hp⟩

/-- The renewal of the numbers of whole units. -/
theorem foldlM_unit {units : List (List Point)}
    (hm : ∀ points ∈ units, ∀ p ∈ points, p.excluded = muted p.site)
    (hs : ∀ points ∈ units, ∀ p ∈ points, ∃ e, u.db.expr? p.site = some e) :
    Outcome muted (visits units) u (units.foldlM unit u) := by
  have hwalk : units.foldlM unit u = (calls units).foldlM (fun u v => visit v.1 u v.2) u := by
    clear hm hs
    induction units generalizing u with
    | nil => rfl
    | cons points units ih =>
      simp only [calls, List.foldlM_cons, List.flatMap_cons, List.foldlM_append, List.foldlM_map]
      exact bind_congr fun u => ih
  rw [visits_eq_map_calls, hwalk]
  refine foldlM_visit (fun v hv => ?_) (fun v hv => ?_)
  · obtain ⟨points, hpoints, hp⟩ := exists_unit_of_mem_calls hv
    exact hm points hpoints v.2 hp
  · obtain ⟨points, hpoints, hp⟩ := exists_unit_of_mem_calls hv
    exact hs points hpoints v.2 hp

/-! ## What a renewal does to numbers -/

namespace Renewal

variable {visits : List (Bool × ExprId)} (hr : Renewal muted visits u u')

include hr

/-- A visited node that is muted has no number. -/
theorem number?_of_muted {missing : Bool} (hx : muted x = true) (hv : (missing, x) ∈ visits) :
    u'.db.number? x = none := by
  rw [hr.number?, renewed, if_pos ⟨hx, List.mem_map_of_mem hv⟩]

/-- A node that is not muted keeps its number. -/
theorem number?_of_some {n : UInt32} (hx : muted x = false) (hn : u.db.number? x = some n) :
    u'.db.number? x = some n := by
  rw [hr.number?, renewed, if_neg (by simp [hx]), if_neg, hn]
  rw [mem_newcomers, isOpen, hn]
  simp

/-- A node that is not visited is left alone. -/
theorem number?_of_not_visited (hx : x ∉ visits.map (·.2)) :
    u'.db.number? x = u.db.number? x := by
  rw [hr.number?, renewed, if_neg fun h => hx h.2, if_neg]
  rw [mem_newcomers]
  exact fun h => hx (List.mem_map_of_mem h.1)

/-- Nodes that miss something have a number, unless they are muted. -/
theorem number?_ne_none (hx : muted x = false) (hv : (true, x) ∈ visits) :
    u'.db.number? x ≠ none := by
  rw [hr.number?, renewed, if_neg (by simp [hx])]
  split
  · nofun
  · rename_i hnew
    intro hnone
    rw [mem_newcomers, isOpen, hx, hnone] at hnew
    exact hnew ⟨hv, rfl⟩

/-- A number was there before, or is a newcomer's. -/
theorem number?_eq_some {n : UInt32} (hn : u'.db.number? x = some n) :
    u.db.number? x = some n ∨
      x ∈ u.newcomers muted visits ∧
        n.toNat = u.next.toNat + (u.newcomers muted visits).idxOf x := by
  rw [hr.number?, renewed] at hn
  split at hn
  · cases hn
  · split at hn <;> rename_i hnew
    · have hnext := hr.next
      have hlt := List.idxOf_lt_length_of_mem hnew
      have hsize := u'.next.toNat_lt_size
      obtain rfl := Option.some.inj hn
      refine .inr ⟨hnew, ?_⟩
      rw [UInt32.toNat_add, UInt32.toNat_ofNat']
      have hpow : UInt32.size = 2 ^ 32 := rfl
      omega
    · exact .inl hn

/-- Where all numbers are less than the next one to be given, those of two nodes stay different. -/
theorem number?_inj {y : ExprId} {n : UInt32}
    (hx : ∀ m, u.db.number? x = some m → m.toNat < u.next.toNat)
    (hy : ∀ m, u.db.number? y = some m → m.toNat < u.next.toNat)
    (hinj : ∀ m, u.db.number? x = some m → u.db.number? y = some m → x = y)
    (hnx : u'.db.number? x = some n) (hny : u'.db.number? y = some n) : x = y := by
  rcases hr.number?_eq_some hnx with hox | ⟨hnewx, hox⟩ <;>
    rcases hr.number?_eq_some hny with hoy | ⟨hnewy, hoy⟩
  · exact hinj n hox hoy
  · have := hx n hox
    omega
  · have := hy n hoy
    omega
  · exact (List.idxOf_inj hnewx).mp (by omega)

end Renewal

/-! ## The first number -/

/-- The highest number among nodes. -/
def highest (db : Database) (nodes : List ExprId) : UInt32 :=
  (nodes.filterMap db.number?).foldl max 0

/-- The highest number is read off the numbers. -/
theorem highest_congr {db db' : Database} {nodes : List ExprId}
    (h : ∀ x ∈ nodes, db'.number? x = db.number? x) : highest db' nodes = highest db nodes := by
  rw [highest, highest, List.filterMap_congr h]

/-- Numbers start above the highest one, if there is room. -/
theorem start_eq (db : Database) (nodes : List ExprId) :
    start db nodes = (Counter.addOr .underlinesExhausted (highest db nodes) 1).map (⟨db, ·⟩) := by
  change (Counter.addOr .underlinesExhausted (highest db nodes) 1 >>= _) = _
  cases Counter.addOr .underlinesExhausted (highest db nodes) 1 <;> rfl

/-- No number is above the highest one. -/
theorem le_highest {db : Database} {nodes : List ExprId} {n : UInt32} (hx : x ∈ nodes)
    (hn : db.number? x = some n) : n ≤ highest db nodes := by
  have hmax (a b : UInt32) : a ≤ max a b ∧ b ≤ max a b := by
    change a ≤ (if a ≤ b then b else a) ∧ b ≤ (if a ≤ b then b else a)
    grind
  have hfold (l : List UInt32) (a : UInt32) : a ≤ l.foldl max a ∧ ∀ m ∈ l, m ≤ l.foldl max a := by
    induction l generalizing a with
    | nil => exact ⟨UInt32.le_refl a, nofun⟩
    | cons b l ih =>
      obtain ⟨hle, hmem⟩ := ih (max a b)
      refine ⟨UInt32.le_trans (hmax a b).1 hle, List.forall_mem_cons.mpr ⟨?_, hmem⟩⟩
      exact UInt32.le_trans (hmax a b).2 hle
  exact (hfold _ 0).2 n (List.mem_filterMap.mpr ⟨x, hx, hn⟩)

/-- The highest number is carried by a node, or is zero. -/
theorem highest_mem {db : Database} (nodes : List ExprId) :
    highest db nodes = 0 ∨ ∃ x ∈ nodes, db.number? x = some (highest db nodes) := by
  have hfold (l : List UInt32) (a : UInt32) : l.foldl max a = a ∨ l.foldl max a ∈ l := by
    induction l generalizing a with
    | nil => exact .inl rfl
    | cons b l ih =>
      rw [List.foldl_cons]
      rcases ih (max a b) with heq | hmem
      · rw [heq]
        change (if a ≤ b then b else a) = a ∨ (if a ≤ b then b else a) ∈ b :: l
        split
        · exact .inr List.mem_cons_self
        · exact .inl rfl
      · exact .inr (List.mem_cons_of_mem b hmem)
  exact (hfold _ 0).imp id List.mem_filterMap.mp

end Underlining

end LogicCoverage
