import LogicCoverage.Exclusion
import LogicCoverage.Proofs.ScopeScore

/-!
# Moved statistics

An exclusion moves the statistics of the scopes that list its statement by one and the same
difference. That succeeds just if every counter stays in range, and touches no other scope.
-/

namespace LogicCoverage

/-- By how much an exclusion moves each counter. -/
def ExclusionOutcome.delta (o : ExclusionOutcome) : Column → Int
  | .combHit => o.combHitDelta
  | .combExcluded => o.combExcludedDelta
  | .lineHit => o.lineHitDelta
  | .lineExcluded => o.lineHitDelta
  | .combTotal => 0
  | .lineTotal => 0

/-- A statistic moved by a difference. -/
def Statistic.Moved (delta : Column → Int) (s s' : Statistic) : Prop :=
  ∀ col, (s'.tally col : Int) = s.tally col + delta col

/-- A counter can take the value. -/
def InRange (n : Int) : Prop := 0 ≤ n ∧ n < UInt32.size

namespace Exclusion

variable {o : ExclusionOutcome} {u : ScopeId} {s s' : Statistic} {fault : Fault}

/-- A counter is moved just if the sum is in range. -/
theorem shift_eq_ok_iff {a c : UInt32} {delta : Int} {name : CounterName} :
    shift a delta name u = .ok c ↔ (c.toNat : Int) = a.toNat + delta := by
  rw [← Counter.shift?_eq_some_iff, shift]
  cases Counter.shift? a delta <;> simp

/-- A counter that cannot be moved would leave the range. -/
theorem shift_error {a : UInt32} {delta : Int} {name : CounterName}
    (h : shift a delta name u = .error fault) :
    ¬ InRange (a.toNat + delta) := by
  rintro ⟨hlow, hhigh⟩
  unfold shift Counter.shift? at h
  simp only [hlow, hhigh, and_self, if_true] at h
  cases h

/-- A statistic that is moved has moved in the columns of the change. -/
theorem shiftStat_ok (h : shiftStat o u s = .ok s') : s.Moved o.delta s' := by
  simp only [shiftStat, bind_eq_ok_iff, shift_eq_ok_iff] at h
  obtain ⟨hit, hh, excluded, he, line, hl, lineExcluded, hx, h⟩ := h
  cases h
  intro col
  cases col <;> simp only [Statistic.tally, ExclusionOutcome.delta] <;> omega

/-- A statistic cannot be moved only if some counter would leave its range. -/
theorem shiftStat_error (h : shiftStat o u s = .error fault) :
    ∃ col, ¬ InRange (s.tally col + o.delta col) := by
  rcases bind_eq_error_iff.mp h with hh | ⟨hit, -, h⟩
  · exact ⟨.combHit, shift_error hh⟩
  · rcases bind_eq_error_iff.mp h with he | ⟨excluded, -, h⟩
    · exact ⟨.combExcluded, shift_error he⟩
    · rcases bind_eq_error_iff.mp h with hl | ⟨line, -, h⟩
      · exact ⟨.lineHit, shift_error hl⟩
      · rcases bind_eq_error_iff.mp h with hx | ⟨lineExcluded, -, h⟩
        · exact ⟨.lineExcluded, shift_error hx⟩
        · cases h

end Exclusion

namespace Database

variable {db db' : Database}

/-! ## Cached statistics -/

/-- A statistic is a score. -/
theorem unscored_setStat (db : Database) (u : ScopeId) (stat : Statistic) :
    (db.setStat u stat).unscored = db.unscored := by
  have hscopes : (db.scopes.modify u.index.toNat fun scope => { scope with stat }).map
      Scope.unscored = db.scopes.map Scope.unscored := map_modify_of_comp (fun _ => by rfl) _ _
  simp only [unscored, setStat, modifyScope, hscopes]

/-- One scope gets the statistic. -/
theorem scope?_setStat (db : Database) (u v : ScopeId) (stat : Statistic) :
    (db.setStat u stat).scope? v =
      if v = u then (db.scope? v).map fun scope => { scope with stat } else db.scope? v :=
  db.scope?_modifyScope u _ v

/-- The statistics of some scopes were moved. -/
structure Moved (db : Database) (delta : Column → Int) (scopes : List ScopeId) (db' : Database) :
    Prop where
  exprs : db'.exprs = db.exprs
  unscored : db'.unscored = db.unscored
  inside {v scope} : v ∈ scopes → db.scope? v = some scope →
    ∃ stat, db'.scope? v = some { scope with stat } ∧ scope.stat.Moved delta stat
  outside {v} : v ∉ scopes → db'.scope? v = db.scope? v

/-- The scope that is moved is there, and nothing but its statistic is touched. -/
theorem shiftScope_ok {o : ExclusionOutcome} {u : ScopeId}
    (h : Exclusion.shiftScope o db u = .ok db') :
    ∃ scope stat, db.scope? u = some scope ∧ scope.stat.Moved o.delta stat ∧
      db' = db.setStat u stat := by
  obtain ⟨scope, hscope, h⟩ := bind_eq_ok_iff.mp h
  obtain ⟨stat, hstat, h⟩ := bind_eq_ok_iff.mp h
  cases h
  exact ⟨scope, stat, db.scope_eq_ok_iff.mp hscope, Exclusion.shiftStat_ok hstat, rfl⟩

/-- Scopes that are moved one after the other have each moved once. -/
theorem moved_of_foldlM {o : ExclusionOutcome} {scopes : List ScopeId} (hnodup : scopes.Nodup)
    (h : scopes.foldlM (Exclusion.shiftScope o) db = .ok db') : db.Moved o.delta scopes db' := by
  induction scopes generalizing db with
  | nil =>
    cases h
    exact ⟨rfl, rfl, fun hv => (List.not_mem_nil hv).elim, fun _ => rfl⟩
  | cons u scopes ih =>
    rw [List.nodup_cons] at hnodup
    rw [List.foldlM_cons] at h
    obtain ⟨db₁, hstep, h⟩ := bind_eq_ok_iff.mp h
    obtain ⟨scope, stat, hscope, hmoved, rfl⟩ := shiftScope_ok hstep
    have hrest := ih hnodup.2 h
    refine ⟨hrest.exprs, hrest.unscored.trans (unscored_setStat db u stat), ?_, ?_⟩
    · intro v scope' hv hscope'
      by_cases hvu : v = u
      · subst hvu
        cases hscope.symm.trans hscope'
        refine ⟨stat, ?_, hmoved⟩
        rw [hrest.outside hnodup.1, scope?_setStat, if_pos rfl, hscope]
        rfl
      · apply hrest.inside ((List.mem_cons.mp hv).resolve_left hvu)
        rw [scope?_setStat, if_neg hvu, hscope']
    · intro v hv
      rw [List.mem_cons, not_or] at hv
      rw [hrest.outside hv.2, scope?_setStat, if_neg hv.1]

/-- Statistics that stay in range can be moved. -/
theorem foldlM_shiftScope_error {o : ExclusionOutcome} {scopes : List ScopeId}
    (hnodup : scopes.Nodup) (hex : ∀ v ∈ scopes, ∃ scope, db.scope? v = some scope) {fault : Fault}
    (h : scopes.foldlM (Exclusion.shiftScope o) db = .error fault) :
    ∃ v ∈ scopes, ∃ scope col, db.scope? v = some scope ∧
      ¬ InRange (scope.stat.tally col + o.delta col) := by
  induction scopes generalizing db with
  | nil => cases h
  | cons u scopes ih =>
    rw [List.nodup_cons] at hnodup
    rw [List.forall_mem_cons] at hex
    obtain ⟨⟨scope, hscope⟩, hex⟩ := hex
    rw [List.foldlM_cons] at h
    rcases bind_eq_error_iff.mp h with hstep | ⟨db₁, hstep, h⟩
    · unfold Exclusion.shiftScope at hstep
      rw [db.scope_eq_ok_iff.mpr hscope, ok_bind] at hstep
      rcases bind_eq_error_iff.mp hstep with hstat | ⟨stat, -, hstep⟩
      · obtain ⟨col, hcol⟩ := Exclusion.shiftStat_error hstat
        exact ⟨u, List.mem_cons_self, scope, col, hscope, hcol⟩
      · cases hstep
    · obtain ⟨scope', stat, -, -, rfl⟩ := shiftScope_ok hstep
      have same {v : ScopeId} (hv : v ∈ scopes) :
          (db.setStat u stat).scope? v = db.scope? v := by
        rw [scope?_setStat, if_neg]
        rintro rfl
        exact hnodup.1 hv
      obtain ⟨v, hv, scope₁, col, hscope₁, hcol⟩ :=
        ih hnodup.2 (fun v hv => by rw [same hv]; exact hex v hv) h
      rw [same hv] at hscope₁
      exact ⟨v, List.mem_cons_of_mem u hv, scope₁, col, hscope₁, hcol⟩

/-! ## The scopes that list a statement -/

/-- The scopes that list a statement, and no others. -/
theorem mem_scopesListing {stmt : StmtId} {v : ScopeId} :
    v ∈ db.scopesListing stmt ↔ ∃ scope, db.scope? v = some scope ∧ stmt ∈ scope.statements := by
  simp only [scopesListing, List.mem_filter, Option.any_eq_true]
  constructor
  · rintro ⟨-, scope, hscope, hmem⟩
    exact ⟨scope, hscope, List.contains_iff_mem.mp hmem⟩
  · rintro ⟨scope, hscope, hmem⟩
    exact ⟨mem_scopeIds hscope, scope, hscope, List.contains_iff_mem.mpr hmem⟩

/-- Each scope is listed once. -/
theorem nodup_scopesListing (db : Database) (stmt : StmtId) : (db.scopesListing stmt).Nodup :=
  db.nodup_scopeIds.filter _

end Database

end LogicCoverage
