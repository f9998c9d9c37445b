import LogicCoverage.Proofs.Tally

/-!
# The summary of a hierarchy of scopes

A summary goes through scopes with a stack of those still to be added, and adds none twice, so that
it ends even where scopes contain each other. What carries it: every scope added or on the stack is
below the first one, and what an added scope contains was added or is on the stack. Once the stack is
empty, the scopes added are all that are below the first one.
-/

namespace LogicCoverage

open Relation Finset

/-! ## Sums of statistics -/

namespace Statistic

variable {a b c : Statistic}

/-- A sum comes about just if all columns fit, and is then the sum in each. -/
theorem add_eq_ok_iff : a.add b = .ok c ↔ ∀ col, c.tally col = a.tally col + b.tally col := by
  simp only [add, bind_eq_ok_iff, Counter.add_eq_ok_iff, pure, Except.pure, Except.ok.injEq]
  constructor
  · rintro ⟨ch, hch, ct, hct, ce, hce, lh, hlh, lt, hlt, le, hle, rfl⟩ (_ | _ | _ | _ | _ | _)
    exacts [hch, hct, hce, hlh, hlt, hle]
  · intro h
    exact ⟨_, h .combHit, _, h .combTotal, _, h .combExcluded, _, h .lineHit, _, h .lineTotal, _,
      h .lineExcluded, rfl⟩

/-- A sum of statistics leaves the range in some column. -/
theorem add_error {fault : Fault} (h : a.add b = .error fault) :
    fault = .counterOverflow ∧ ∃ col, UInt32.size ≤ a.tally col + b.tally col := by
  have column (col : Column) {x y : UInt32} (hx : x.toNat = a.tally col) (hy : y.toNat = b.tally col)
      (h : Counter.add x y.toNat = .error fault) :
      fault = .counterOverflow ∧ ∃ col, UInt32.size ≤ a.tally col + b.tally col := by
    obtain ⟨hfault, hsize⟩ := Counter.add_error h
    exact ⟨hfault, col, hx ▸ hy ▸ hsize⟩
  rcases bind_eq_error_iff.mp h with h | ⟨_, -, h⟩
  · exact column .combHit rfl rfl h
  rcases bind_eq_error_iff.mp h with h | ⟨_, -, h⟩
  · exact column .combTotal rfl rfl h
  rcases bind_eq_error_iff.mp h with h | ⟨_, -, h⟩
  · exact column .combExcluded rfl rfl h
  rcases bind_eq_error_iff.mp h with h | ⟨_, -, h⟩
  · exact column .lineHit rfl rfl h
  rcases bind_eq_error_iff.mp h with h | ⟨_, -, h⟩
  · exact column .lineTotal rfl rfl h
  rcases bind_eq_error_iff.mp h with h | ⟨_, -, h⟩
  · exact column .lineExcluded rfl rfl h
  · cases h

theorem tally_zero (col : Column) : zero.tally col = 0 := by cases col <;> rfl

end Statistic

/-- The same cached statistic and the same children, in whatever order and however often each is
listed. -/
structure Scope.Alike (scope scope' : Scope) : Prop where
  stat : scope'.stat = scope.stat
  children (c : ScopeId) : c ∈ scope'.children ↔ c ∈ scope.children

namespace Database

/-- A scope lists another one as its child. -/
def Contains (db : Database) (u c : ScopeId) : Prop :=
  ∃ scope, db.scope? u = some scope ∧ c ∈ scope.children

/-- The cached counter of a scope in a column. -/
def cachedTally (db : Database) (u : ScopeId) (col : Column) : Nat :=
  (db.scope? u).elim 0 fun scope => scope.stat.tally col

/-- All children that are listed exist. -/
def ScopesExist (db : Database) : Prop :=
  ∀ u c, db.Contains u c → ∃ scope, db.scope? c = some scope

variable {db : Database} {s u c : ScopeId} {scope : Scope} {unvisited stack : List ScopeId}
  {total : Statistic} {added : Finset ScopeId}

theorem cachedTally_eq (hu : db.scope? u = some scope) (col : Column) :
    db.cachedTally u col = scope.stat.tally col := by
  rw [cachedTally, hu]
  rfl

/-- A scope contains its children, and nothing else directly. -/
theorem contains_iff (hu : db.scope? u = some scope) : db.Contains u c ↔ c ∈ scope.children := by
  constructor
  · rintro ⟨scope', hu', hc⟩
    cases hu.symm.trans hu'
    exact hc
  · exact fun hc => ⟨scope, hu, hc⟩

open scoped Classical in
/-- The scopes that are reached from a scope through child lists, itself included. -/
noncomputable def below (db : Database) (s : ScopeId) : Finset ScopeId :=
  {v ∈ db.scopeIds.toFinset | ReflTransGen db.Contains s v}

/-- All children in a forest are there. -/
theorem Forest.scopesExist (hf : db.Forest) : db.ScopesExist := by
  rintro u c ⟨scope, hu, hc⟩
  exact hf.childScope hu hc

/-- What a scope contains at any depth is there. -/
theorem exists_scope?_of_contains (hex : db.ScopesExist) (hs : ∃ scope, db.scope? s = some scope)
    (h : ReflTransGen db.Contains s u) : ∃ scope, db.scope? u = some scope := by
  rcases ReflTransGen.cases_tail h with rfl | ⟨v, -, hv⟩
  · exact hs
  · exact hex v u hv

/-- What is below a scope is what it contains at any depth. -/
theorem mem_below (hex : db.ScopesExist) (hs : ∃ scope, db.scope? s = some scope) :
    u ∈ db.below s ↔ ReflTransGen db.Contains s u := by
  classical
  rw [below, mem_filter, List.mem_toFinset, and_iff_right_iff_imp]
  intro h
  obtain ⟨scope, hu⟩ := exists_scope?_of_contains hex hs h
  exact mem_scopeIds hu

/-- What is known of a summary when some of the scopes are added. -/
structure Summed (db : Database) (s : ScopeId) (added : Finset ScopeId)
    (unvisited stack : List ScopeId) (total : Statistic) : Prop where
  nodup : unvisited.Nodup
  mem_unvisited {v : ScopeId} : v ∈ unvisited ↔ (∃ scope, db.scope? v = some scope) ∧ v ∉ added
  below_of_stack {v : ScopeId} : v ∈ stack → ReflTransGen db.Contains s v
  below_of_added {v : ScopeId} : v ∈ added → ReflTransGen db.Contains s v
  closed {v c : ScopeId} : v ∈ added → db.Contains v c → c ∈ added ∨ c ∈ stack
  rooted : s ∈ added ∨ s ∈ stack
  tally (col : Column) : total.tally col = ∑ v ∈ added, db.cachedTally v col

namespace Summed

/-- Nothing is added before the summary starts. -/
theorem start (db : Database) (s : ScopeId) : Summed db s ∅ db.scopeIds [s] .zero where
  nodup := db.nodup_scopeIds
  mem_unvisited {u} := by
    simp only [notMem_empty, not_false_eq_true, and_true]
    exact ⟨exists_scope?_of_mem, fun ⟨_, hu⟩ => mem_scopeIds hu⟩
  below_of_stack hu := List.mem_singleton.mp hu ▸ .refl
  below_of_added hu := absurd hu (notMem_empty _)
  closed hu := absurd hu (notMem_empty _)
  rooted := .inr List.mem_cons_self
  tally col := by rw [sum_empty, Statistic.tally_zero]

/-- A scope that was added before is passed over. -/
theorem skip (h : Summed db s added unvisited (u :: stack) total) (hu : u ∈ added) :
    Summed db s added unvisited stack total where
  nodup := h.nodup
  mem_unvisited := h.mem_unvisited
  below_of_stack hv := h.below_of_stack (List.mem_cons_of_mem u hv)
  below_of_added := h.below_of_added
  closed {v c} hv hc := by
    rcases h.closed hv hc with hmem | hmem
    · exact .inl hmem
    · rcases List.mem_cons.mp hmem with rfl | hmem
      · exact .inl hu
      · exact .inr hmem
  rooted := by
    rcases h.rooted with hmem | hmem
    · exact .inl hmem
    · rcases List.mem_cons.mp hmem with rfl | hmem
      · exact .inl hu
      · exact .inr hmem
  tally := h.tally

/-- A scope that was not added is, and its children go on the stack. -/
theorem visit (h : Summed db s added unvisited (u :: stack) total) (hu : db.scope? u = some scope)
    (hnew : u ∉ added) {total' : Statistic} (htotal : total.add scope.stat = .ok total') :
    Summed db s (insert u added) (unvisited.erase u) (scope.children ++ stack) total' where
  nodup := h.nodup.erase u
  mem_unvisited {v} := by
    rw [h.nodup.mem_erase_iff, h.mem_unvisited, mem_insert, not_or]
    tauto
  below_of_stack {v} hv := by
    rcases List.mem_append.mp hv with hv | hv
    · exact (h.below_of_stack List.mem_cons_self).tail ((contains_iff hu).mpr hv)
    · exact h.below_of_stack (List.mem_cons_of_mem u hv)
  below_of_added {v} hv := by
    rcases mem_insert.mp hv with rfl | hv
    · exact h.below_of_stack List.mem_cons_self
    · exact h.below_of_added hv
  closed {v c} hv hc := by
    rcases mem_insert.mp hv with rfl | hv
    · exact .inr (List.mem_append_left stack ((contains_iff hu).mp hc))
    · rcases h.closed hv hc with hmem | hmem
      · exact .inl (mem_insert_of_mem hmem)
      · rcases List.mem_cons.mp hmem with rfl | hmem
        · exact .inl (mem_insert_self c added)
        · exact .inr (List.mem_append_right _ hmem)
  rooted := by
    rcases h.rooted with hmem | hmem
    · exact .inl (mem_insert_of_mem hmem)
    · rcases List.mem_cons.mp hmem with rfl | hmem
      · exact .inl (mem_insert_self s added)
      · exact .inr (List.mem_append_right _ hmem)
  tally col := by
    rw [Statistic.add_eq_ok_iff.mp htotal, h.tally, sum_insert hnew, cachedTally_eq hu, add_comm]

/-- With nothing on the stack, the scopes added are those below the first one. -/
theorem mem_added_iff (h : Summed db s added unvisited [] total) :
    u ∈ added ↔ ReflTransGen db.Contains s u := by
  refine ⟨h.below_of_added, fun hreach => ?_⟩
  induction hreach with
  | refl => exact h.rooted.resolve_right List.not_mem_nil
  | tail _ hc ih => exact (h.closed ih hc).resolve_right List.not_mem_nil

variable (hex : db.ScopesExist) (hs : ∃ scope, db.scope? s = some scope)

include hex hs

/-- Only what is below the scope is added. -/
theorem added_subset (h : Summed db s added unvisited stack total) : added ⊆ db.below s :=
  fun _ hv => (mem_below hex hs).mpr (h.below_of_added hv)

/-- A summary that is under way ends with the sums over all scopes below the first one, or with a sum
that leaves the range of counters. -/
theorem addScopes_cases (h : Summed db s added unvisited stack total) :
    (∃ stat, db.addScopes unvisited stack total = .ok stat ∧
        ∀ col, stat.tally col = ∑ v ∈ db.below s, db.cachedTally v col) ∨
      db.addScopes unvisited stack total = .error .counterOverflow ∧
        ∃ col, UInt32.size ≤ ∑ v ∈ db.below s, db.cachedTally v col := by
  fun_induction addScopes db unvisited stack total generalizing added with
  | case1 unvisited total =>
    have hall : added = db.below s := by
      ext v
      rw [h.mem_added_iff, mem_below hex hs]
    exact .inl ⟨total, rfl, hall ▸ h.tally⟩
  | case2 unvisited total u stack hu fault hscope =>
    obtain ⟨scope, hu⟩ := (h.mem_unvisited.mp hu).1
    cases hscope.symm.trans (db.scope_eq_ok_iff.mpr hu)
  | case3 unvisited total u stack hu scope hscope fault htotal =>
    obtain ⟨rfl, col, hsize⟩ := Statistic.add_error htotal
    refine .inr ⟨rfl, col, hsize.trans ?_⟩
    -- what is added and what was to be added is below the first scope
    have hsub : insert u added ⊆ db.below s := insert_subset
      ((mem_below hex hs).mpr (h.below_of_stack List.mem_cons_self)) (h.added_subset hex hs)
    calc total.tally col + scope.stat.tally col
      _ = ∑ v ∈ insert u added, db.cachedTally v col := by
        rw [sum_insert (h.mem_unvisited.mp hu).2, h.tally,
          cachedTally_eq (db.scope_eq_ok_iff.mp hscope), add_comm]
      _ ≤ ∑ v ∈ db.below s, db.cachedTally v col := sum_le_sum_of_subset hsub
  | case4 unvisited total u stack hu scope hscope total' htotal ih =>
    exact ih (h.visit (db.scope_eq_ok_iff.mp hscope) (h.mem_unvisited.mp hu).2 htotal)
  | case5 unvisited total u stack hu fault hscope =>
    obtain ⟨scope, hu⟩ :=
      exists_scope?_of_contains hex hs (h.below_of_stack List.mem_cons_self)
    cases hscope.symm.trans (db.scope_eq_ok_iff.mpr hu)
  | case6 unvisited total u stack hu scope hscope ih =>
    refine ih (h.skip ?_)
    by_contra hnew
    exact hu (h.mem_unvisited.mpr ⟨⟨scope, db.scope_eq_ok_iff.mp hscope⟩, hnew⟩)

end Summed

/-! ## The summary -/

theorem hierarchySummary_of_none (hs : db.scope? s = none) :
    db.hierarchySummary s = .error (.lookup (.scopeNotFound s)) := by
  rw [hierarchySummary, hs]
  rfl

/-- The summary of a scope that there is adds up the scopes from there on. -/
theorem hierarchySummary_eq (hs : db.scope? s = some scope) :
    db.hierarchySummary s = Checked.request (db.addScopes db.scopeIds [s] .zero) := by
  rw [hierarchySummary, hs]
  rfl

/-- A summary returns the sums over all scopes below, and fails just if one is out of range. -/
theorem hierarchySummary_iff (hex : db.ScopesExist) (hs : db.scope? s = some scope) :
    (∀ stat, db.hierarchySummary s = .ok stat ↔
      ∀ col, stat.tally col = ∑ v ∈ db.below s, db.cachedTally v col) ∧
    ∀ refusal, db.hierarchySummary s = .error refusal ↔ refusal = .fault .counterOverflow ∧
      ∃ col, UInt32.size ≤ ∑ v ∈ db.below s, db.cachedTally v col := by
  rw [hierarchySummary_eq hs]
  rcases (Summed.start db s).addScopes_cases hex ⟨scope, hs⟩ with
    ⟨stat, hok, htally⟩ | ⟨herr, col, hsize⟩
  · rw [hok]
    refine ⟨fun stat' => ?_, fun refusal => ⟨nofun, ?_⟩⟩
    · constructor
      · intro h
        cases h
        exact htally
      · intro htally'
        rw [Statistic.tally_inj (funext fun col => (htally col).trans (htally' col).symm)]
        rfl
    · rintro ⟨-, col, hsize⟩
      rw [← htally] at hsize
      exact absurd (stat.tally_lt col) (Nat.not_lt.mpr hsize)
  · rw [herr]
    refine ⟨fun stat => ⟨nofun, fun htally => ?_⟩, fun refusal => ?_⟩
    · rw [← htally] at hsize
      exact absurd (stat.tally_lt col) (Nat.not_lt.mpr hsize)
    · constructor
      · intro h
        cases h
        exact ⟨rfl, col, hsize⟩
      · rintro ⟨rfl, -⟩
        rfl

section Alike

variable {db' : Database} (h : ∀ u, Option.Rel Scope.Alike (db.scope? u) (db'.scope? u))

include h

/-- Scopes of the same children contain the same. -/
theorem contains_eq_of_alike : db'.Contains = db.Contains := by
  funext u c
  have hu := h u
  rw [Contains, Contains]
  generalize db.scope? u = scope at hu
  generalize db'.scope? u = scope' at hu
  cases hu with
  | none => simp
  | some halike => simp [halike.children]

/-- Scopes of the same statistics have the same tallies. -/
theorem cachedTally_eq_of_alike : db'.cachedTally = db.cachedTally := by
  funext u col
  have hu := h u
  rw [cachedTally, cachedTally]
  generalize db.scope? u = scope at hu
  generalize db'.scope? u = scope' at hu
  cases hu with
  | none => rfl
  | some halike => rw [Option.elim_some, Option.elim_some, halike.stat]

theorem exists_scope?_iff_of_alike (u : ScopeId) :
    (∃ scope, db'.scope? u = some scope) ↔ ∃ scope, db.scope? u = some scope := by
  have hu := h u
  generalize db.scope? u = scope at hu
  generalize db'.scope? u = scope' at hu
  cases hu <;> simp

/-- Whether all children are there is read off the scopes. -/
theorem scopesExist_of_alike (hex : db.ScopesExist) : db'.ScopesExist := by
  intro u c hc
  rw [contains_eq_of_alike h] at hc
  exact (exists_scope?_iff_of_alike h c).mpr (hex u c hc)

/-- What is below a scope is read off the scopes. -/
theorem below_eq_of_alike (hex : db.ScopesExist) (hs : ∃ scope, db.scope? s = some scope) :
    db'.below s = db.below s := by
  ext v
  rw [mem_below (scopesExist_of_alike h hex) ((exists_scope?_iff_of_alike h s).mpr hs),
    mem_below hex hs, contains_eq_of_alike h]

/-- The order of children does not matter, and neither do repetitions. -/
theorem hierarchySummary_congr (hex : db.ScopesExist) :
    db'.hierarchySummary s = db.hierarchySummary s := by
  cases hs : db.scope? s with
  | none =>
    have hs' : db'.scope? s = none := by
      rw [← Option.not_isSome_iff_eq_none, Option.isSome_iff_exists, exists_scope?_iff_of_alike h s,
        hs]
      simp
    rw [hierarchySummary_of_none hs, hierarchySummary_of_none hs']
  | some scope =>
    obtain ⟨scope', hs'⟩ := (exists_scope?_iff_of_alike h s).mpr ⟨scope, hs⟩
    obtain ⟨hok, herr⟩ := hierarchySummary_iff hex hs
    obtain ⟨hok', herr'⟩ := hierarchySummary_iff (scopesExist_of_alike h hex) hs'
    rw [below_eq_of_alike h hex ⟨scope, hs⟩, cachedTally_eq_of_alike h] at hok' herr'
    cases hres : db.hierarchySummary s with
    | ok stat => exact (hok' stat).mpr ((hok stat).mp hres)
    | error refusal => exact (herr' refusal).mpr ((herr refusal).mp hres)

end Alike

/-- A summary has an answer at every scope that exists, whatever contains what: the sums over the
scopes below, each counted once, and a fault just if one of the sums is out of range. -/
theorem hierarchySummary_eq_sum (hex : db.ScopesExist) (s : ScopeId) :
    (db.scope? s = none → db.hierarchySummary s = .error (.lookup (.scopeNotFound s))) ∧
      ((∃ scope, db.scope? s = some scope) →
        (∀ v, v ∈ db.below s ↔ ReflTransGen db.Contains s v) ∧
        (∀ stat, db.hierarchySummary s = .ok stat ↔
          ∀ col, stat.tally col = ∑ v ∈ db.below s, db.cachedTally v col) ∧
        (∀ refusal, db.hierarchySummary s = .error refusal ↔ refusal = .fault .counterOverflow ∧
          ∃ col, UInt32.size ≤ ∑ v ∈ db.below s, db.cachedTally v col) ∧
        ∀ db' : Database, (∀ u, Option.Rel Scope.Alike (db.scope? u) (db'.scope? u)) →
          db'.hierarchySummary s = db.hierarchySummary s) := by
  constructor
  · exact hierarchySummary_of_none
  · rintro ⟨scope, hs⟩
    obtain ⟨hok, herr⟩ := hierarchySummary_iff hex hs
    exact ⟨fun v => mem_below hex ⟨scope, hs⟩, hok, herr, fun db' h => hierarchySummary_congr h hex⟩

/-- Three scopes that contain each other in circles, one of them listed twice, and a fourth that
nothing contains. -/
def scopeCircle (top : Statistic) : Database where
  exprs := #[]
  stmts := #[]
  scopes := #[
    ⟨"top", .moduleScope, [], [⟨1⟩, ⟨2⟩, ⟨1⟩], top⟩,
    ⟨"a", .instanceScope, [], [⟨2⟩, ⟨0⟩], ⟨1, 4, 0, 2, 2, 1⟩⟩,
    ⟨"b", .instanceScope, [], [⟨2⟩], ⟨3, 3, 3, 0, 1, 0⟩⟩,
    ⟨"c", .moduleScope, [], [⟨0⟩], ⟨9, 9, 9, 9, 9, 9⟩⟩]

/-- The circle is summed up once, and one point more than there are numbers is a fault. -/
theorem hierarchySummary_scopeCircle :
    (scopeCircle ⟨1, 2, 0, 1, 1, 0⟩).ScopesExist ∧
      (scopeCircle ⟨1, 2, 0, 1, 1, 0⟩).hierarchySummary ⟨0⟩ = .ok ⟨5, 9, 3, 3, 4, 1⟩ ∧
      (∀ col, (⟨5, 9, 3, 3, 4, 1⟩ : Statistic).tally col =
        ∑ v ∈ (scopeCircle ⟨1, 2, 0, 1, 1, 0⟩).below ⟨0⟩,
          (scopeCircle ⟨1, 2, 0, 1, 1, 0⟩).cachedTally v col) ∧
      (scopeCircle ⟨1, 4294967289, 0, 1, 1, 0⟩).ScopesExist ∧
      (scopeCircle ⟨1, 4294967289, 0, 1, 1, 0⟩).hierarchySummary ⟨0⟩ =
        .error (.fault .counterOverflow) ∧
      ∃ col, UInt32.size ≤ ∑ v ∈ (scopeCircle ⟨1, 4294967289, 0, 1, 1, 0⟩).below ⟨0⟩,
        (scopeCircle ⟨1, 4294967289, 0, 1, 1, 0⟩).cachedTally v col := by
  have hex : (scopeCircle ⟨1, 2, 0, 1, 1, 0⟩).ScopesExist :=
    (forest_of_check (by decide +kernel)).scopesExist
  have hok : (scopeCircle ⟨1, 2, 0, 1, 1, 0⟩).hierarchySummary ⟨0⟩ = .ok ⟨5, 9, 3, 3, 4, 1⟩ := by
    cbv
  have hex' : (scopeCircle ⟨1, 4294967289, 0, 1, 1, 0⟩).ScopesExist :=
    (forest_of_check (by decide +kernel)).scopesExist
  have herr : (scopeCircle ⟨1, 4294967289, 0, 1, 1, 0⟩).hierarchySummary ⟨0⟩ =
      .error (.fault .counterOverflow) := by
    cbv
  obtain ⟨-, hsum, -⟩ := (hierarchySummary_eq_sum hex ⟨0⟩).2 ⟨_, rfl⟩
  obtain ⟨-, -, hfault, -⟩ := (hierarchySummary_eq_sum hex' ⟨0⟩).2 ⟨_, rfl⟩
  exact ⟨hex, hok, (hsum _).mp hok, hex', herr, ((hfault _).mp herr).2⟩

end Database

end LogicCoverage
