import LogicCoverage.Proofs.Consistency
import LogicCoverage.Proofs.Runs

/-!
# What an exclusion leaves alone

A request that names something absent is refused before anything is written. One that is carried out
writes to the exclusion of its node, to the numbers of one tree, to the line of its statement, and to
four counters of the scopes that list the statement. The frame of an exclusion is the database with
all that blotted out; every write on the way leaves it as it is.
-/

namespace LogicCoverage

/-- A loop of which every step keeps a view, as long as the steps before have kept it, keeps it. -/
theorem foldlM_view {ε σ α β : Type} (view : σ → β) {step : σ → α → Except ε σ} {l : List α} {s : σ}
    (h : ∀ a ∈ l, ∀ s₁ s₂, view s₁ = view s → step s₁ a = .ok s₂ → view s₂ = view s₁) {s' : σ}
    (hfold : l.foldlM step s = .ok s') : view s' = view s := by
  apply foldlM_invariant (P := fun s₁ => view s₁ = view s) _ rfl hfold
  intro a ha s₁ s₂ hkept hstep
  exact (h a ha s₁ s₂ hkept hstep).trans hkept

/-- A change that a view does not see at this place, seen through that view. -/
theorem mapIdx_modify_of_comp {α β : Type} {view : Nat → α → β} {change : α → α} {xs : Array α}
    {i : Nat} (h : ∀ a, xs[i]? = some a → view i (change a) = view i a) :
    (xs.modify i change).mapIdx view = xs.mapIdx view := by
  apply Array.ext_getElem?
  intro j
  rw [Array.getElem?_mapIdx, Array.getElem?_modify, Array.getElem?_mapIdx]
  split
  · rename_i hij
    subst hij
    cases hx : xs[i]? with
    | none => rfl
    | some a => exact congrArg some (h a hx)
  · rfl

/-- No exclusion moves what there is to cover. -/
theorem Statistic.Moved.totals_eq {o : ExclusionOutcome} {s s' : Statistic}
    (h : s.Moved o.delta s') : s'.combTotal = s.combTotal ∧ s'.lineTotal = s.lineTotal := by
  constructor
  · exact UInt32.toNat_inj.mp (Int.ofNat_inj.mp ((h .combTotal).trans (Int.add_zero _)))
  · exact UInt32.toNat_inj.mp (Int.ofNat_inj.mp ((h .lineTotal).trans (Int.add_zero _)))

namespace Database

variable {db db' : Database} {cfg : ScoringConfig} {u : ScopeId} {x y : ExprId} {id : StmtId}
  {nodes : List ExprId} {o : ExclusionOutcome}

/-! ## The frame -/

/-- The database without the exclusion of a node, the numbers of some nodes, the exclusion of a
statement's line, and the counters that exclusions move, in the scopes that list the statement. -/
def frame (db : Database) (id : StmtId) (nodes : List ExprId) (x : ExprId) : Database where
  exprs := db.exprs.mapIdx fun i e => { e with
    excluded := if i = x.index.toNat then false else e.excluded
    underline := if nodes.any (·.index.toNat = i) then none else e.underline }
  stmts := db.stmts.mapIdx fun i st => { st with
    lineExcluded := if i = id.index.toNat then false else st.lineExcluded }
  scopes := db.scopes.mapIdx fun _ scope => { scope with
    stat := if id ∈ scope.statements then
        { scope.stat with combHit := 0, combExcluded := 0, lineHit := 0, lineExcluded := 0 }
      else scope.stat }

/-- The frame keeps what scopes list. -/
theorem scopesListing_frame (db : Database) (id : StmtId) (nodes : List ExprId) (x : ExprId)
    (stmt : StmtId) : (db.frame id nodes x).scopesListing stmt = db.scopesListing stmt := by
  have hids : (db.frame id nodes x).scopeIds = db.scopeIds := by
    simp only [scopeIds, positions, frame, Array.size_mapIdx]
  rw [scopesListing, scopesListing, hids]
  congr 1
  funext u
  rw [scope?, frame, Array.getElem?_mapIdx, Option.any_map]
  rfl

/-- Numbers of nodes of the tree are outside of the frame. -/
theorem frame_setUnderline (hy : y ∈ nodes) (number : Option UInt32) :
    (db.setUnderline y number).frame id nodes x = db.frame id nodes x := by
  have hany : nodes.any (·.index.toNat = y.index.toNat) = true :=
    List.any_eq_true.mpr ⟨y, hy, decide_eq_true rfl⟩
  rw [frame, setUnderline, modifyExpr, mapIdx_modify_of_comp, frame]
  intro e _
  simp [hany]

/-- The flag of the node is outside of the frame. -/
theorem frame_setExcluded (excluded : Bool) :
    (db.setExcluded x excluded).frame id nodes x = db.frame id nodes x := by
  rw [frame, setExcluded, modifyExpr, mapIdx_modify_of_comp, frame]
  intro e _
  simp

/-- The line of the statement is outside of the frame. -/
theorem frame_moveLine (moves excluded : Bool) :
    (db.moveLine id moves excluded).frame id nodes x = db.frame id nodes x := by
  cases moves with
  | false => rfl
  | true =>
    show (db.setLineExcluded id excluded).frame id nodes x = _
    rw [frame, setLineExcluded, modifyStmt, mapIdx_modify_of_comp, frame]
    intro st _
    simp

/-- The statistic of a scope that lists the statement is outside of the frame. -/
theorem frame_shiftScope (hu : u ∈ db.scopesListing id)
    (h : Exclusion.shiftScope o db u = .ok db') : db'.frame id nodes x = db.frame id nodes x := by
  obtain ⟨scope, stat, hscope, hmoved, rfl⟩ := shiftScope_ok h
  obtain ⟨scope', hscope', hid⟩ := mem_scopesListing.mp hu
  cases hscope.symm.trans hscope'
  obtain ⟨hcomb, hline⟩ := hmoved.totals_eq
  rw [frame, setStat, modifyScope, mapIdx_modify_of_comp, frame]
  intro scope' hscope'
  cases hscope.symm.trans hscope'
  simp [hid, hcomb, hline]

/-! ## Scoring -/

/-- A visit writes to the number of its site. -/
theorem frame_visit {missing : Bool} {s s' : Underlining} {p : Point} (hp : p.site ∈ nodes)
    (h : Underlining.visit missing s p = .ok s') :
    s'.db.frame id nodes x = s.db.frame id nodes x := by
  obtain ⟨current, -, h⟩ := bind_eq_ok_iff.mp h
  split at h
  · cases h
    exact frame_setUnderline hp none
  · split at h
    · obtain ⟨next, -, h⟩ := bind_eq_ok_iff.mp h
      cases h
      exact frame_setUnderline hp (some s.next)
    · cases h
      rfl

/-- Scoring a tree writes to the numbers of its nodes. -/
theorem Forest.frame_computeTree (hf : db.Forest) {stmt : StmtId} {st : Statement}
    (hs : db.stmt? stmt = some st) {marks marks' : PassMarks}
    (hm : ∀ n ∈ db.nodes st.root, marks.counted n = false) {counts : TreeCounts}
    (h : db.computeTree st.root cfg marks = .ok (counts, marks', db')) (id : StmtId) (x : ExprId) :
    db'.frame id (db.nodes st.root) x = db.frame id (db.nodes st.root) x := by
  obtain ⟨er, her, -⟩ := hf.root hs
  obtain ⟨next, u', -, hunits, rfl⟩ := hf.units_of_computeTree hs hm h
  refine foldlM_view (fun s : Underlining => s.db.frame id (db.nodes st.root) x) ?_ hunits
  intro points hpoints s s' _ hunit
  obtain ⟨n, hn, rfl⟩ := List.mem_map.mp hpoints
  refine foldlM_view (fun s : Underlining => s.db.frame id (db.nodes st.root) x) ?_ hunit
  intro p hp s s' _ hvisit
  exact frame_visit (hf.site_mem_nodes her hn
    (List.mem_map_of_mem (Underlining.mem_of_mem_firstPerSite hp))) hvisit

/-! ## The whole exclusion -/

/-- A toggle keeps its frame. -/
theorem Forest.frame_toggle (hf : db.Forest) {st : Statement} {excluded alsoLine : Bool}
    (hs : db.stmt? id = some st) (h : db.toggle cfg id x excluded alsoLine = .ok (o, db')) :
    db'.frame id (db.nodes st.root) x = db.frame id (db.nodes st.root) x := by
  rw [toggle_steps, db.stmt_eq_ok_iff.mpr hs, ok_bind] at h
  obtain ⟨shadowed, -, h⟩ := bind_eq_ok_iff.mp h
  obtain ⟨⟨before, marks, db₁⟩, hbefore, h⟩ := bind_eq_ok_iff.mp h
  obtain ⟨⟨after, marks', db₂⟩, hafter, h⟩ := bind_eq_ok_iff.mp h
  obtain ⟨-, -, h⟩ := bind_eq_ok_iff.mp h
  obtain ⟨er, -, h⟩ := bind_eq_ok_iff.mp h
  obtain ⟨db₃, hshift, h⟩ := bind_eq_ok_iff.mp h
  cases h
  have hnew : ∀ n ∈ db.nodes st.root, (PassMarks.new db.exprs.size).counted n = false :=
    fun n _ => PassMarks.counted_new _ n
  have hscored := hf.scored_of_computeTree hs hnew hbefore
  have hb := hscored.bare_setExcluded x excluded
  have hsecond := (hf.congr hb).frame_computeTree ((hscored.stmt?_setExcluded x excluded id).trans hs)
    (fun n _ => PassMarks.counted_beginPass marks n) hafter id x
  rw [nodes_congr hb] at hsecond
  -- one step for each write, the last one first
  calc db'.frame id (db.nodes st.root) x
      = (db₂.moveLine id (movesLine st er x excluded alsoLine) excluded).frame id
          (db.nodes st.root) x := foldlM_view (fun d : Database => d.frame id _ x) ?_ hshift
    _ = db₂.frame id (db.nodes st.root) x := frame_moveLine _ _
    _ = (db₁.setExcluded x excluded).frame id (db.nodes st.root) x := hsecond
    _ = db₁.frame id (db.nodes st.root) x := frame_setExcluded _
    _ = db.frame id (db.nodes st.root) x := hf.frame_computeTree hs hnew hbefore id x
  intro v hv s₁ s₂ hkept hstep
  refine frame_shiftScope ?_ hstep
  -- which scopes list the statement is part of the frame, so none drops out on the way
  rwa [← scopesListing_frame, hkept, scopesListing_frame]

/-- An exclusion of `x` that was carried out has written to the tree of a statement that the scope
lists, to the line of that statement, and to the statistics of all scopes that list it. -/
structure Framed (db : Database) (u : ScopeId) (x : ExprId) (o : ExclusionOutcome)
    (db' : Database) : Prop where
  listed : ∃ scope, db.scope? u = some scope ∧ o.stmt ∈ scope.statements
  frame : ∃ st nodes, db.stmt? o.stmt = some st ∧ db.subtree st.root = .ok nodes ∧ x ∈ nodes ∧
    db'.frame o.stmt nodes x = db.frame o.stmt nodes x
  scopes {v} : v ∈ o.scopes ↔ ∃ scope, db.scope? v = some scope ∧ o.stmt ∈ scope.statements
  check : db'.check = .ok ()

/-- An exclusion that was carried out keeps its frame. -/
theorem Forest.framed_of_setExclusion (hf : db.Forest) {excluded alsoLine : Bool}
    (h : db.setExclusion cfg u x excluded alsoLine = .ok (o, db')) : db.Framed u x o db' := by
  obtain ⟨t, ht⟩ := hf.toggled_of_setExclusion h
  have hb := ht.bare
  rw [setExclusion_steps, hf.locate_eq t, ok_bind, Checked.request_eq_ok_iff] at h
  have hframe := hf.frame_toggle t.st_eq h
  obtain ⟨before, after, db₁, -, -, rfl⟩ := ht.turned
  exact {
    listed := ⟨t.scope, t.scope_eq, t.listed⟩
    frame := ⟨t.st, db.nodes t.st.root, t.st_eq, hf.subtree_eq t.root_eq, t.mem, hframe⟩
    scopes := mem_scopesListing
    check := (hf.congr hb).check }

end Database

namespace Session

open Database

/-- A step that is refused leaves the session as it was. -/
theorem step_of_lookup {s : Session} {action : Action} {error : LookupError}
    (h : s.perform action = .error (.lookup error)) : s.step action = .ok s := by
  rw [step_eq, h]

/-- On a consistent database, an exclusion is refused just if there is no such scope, or else no such
node, or else the node is in none of the trees that the scope lists; one by number, also if the node
is there and no node below it has the number. The node that a number leads to stands below the one
that was named, and its exclusion is not refused. What is refused changes nothing. What is carried
out keeps its frame, and leaves a consistent database. -/
theorem exclusions_exact {db : Database} (hdb : db.check = .ok ()) (engine : Engine) (u : ScopeId)
    (x : ExprId) (n : UInt32) (excluded alsoLine : Bool) :
    (∀ error, db.setExclusion engine.config u x excluded alsoLine = .error (.lookup error) ↔
      db.Unlocated u x error) ∧
    (∀ error, db.setExclusionByUnderline engine.config u x n excluded = .error (.lookup error) ↔
      db.Unaddressed u x n error) ∧
    (∀ y, (∀ error, ¬ db.Unlocated u x error) → db.findByUnderline x n = .ok y →
      (∃ nodes, db.subtree x = .ok nodes ∧ y ∈ nodes) ∧ db.number? y = some n ∧
      db.setExclusionByUnderline engine.config u x n excluded =
        db.setExclusion engine.config u y excluded false ∧
      ∀ error, db.setExclusion engine.config u y excluded false ≠ .error (.lookup error)) ∧
    (∀ error, db.Unlocated u x error →
      step ⟨engine, db⟩ (.setExclusion u x excluded alsoLine) = .ok ⟨engine, db⟩) ∧
    (∀ error, db.Unaddressed u x n error →
      step ⟨engine, db⟩ (.setExclusionByUnderline u x n excluded) = .ok ⟨engine, db⟩) ∧
    (∀ error, db.Unlocated u x error →
      (Exclusion.set engine.config u x excluded alsoLine).on db = (.error (.lookup error), db)) ∧
    (∀ error, db.Unaddressed u x n error →
      (Exclusion.setByUnderline engine.config u x n excluded).on db =
        (.error (.lookup error), db)) ∧
    (∀ o db', db.setExclusion engine.config u x excluded alsoLine = .ok (o, db') →
      db.Framed u x o db') ∧
    ∀ o db', db.setExclusionByUnderline engine.config u x n excluded = .ok (o, db') →
      ∃ y, db.findByUnderline x n = .ok y ∧ db.Framed u y o db' := by
  have hf : db.Forest := forest_of_check hdb
  refine ⟨fun error => hf.setExclusion_eq_lookup_iff, fun error =>
    hf.setExclusionByUnderline_eq_lookup_iff, ?_, ?_, ?_, fun error herr =>
      Exclusion.on_set_of_refused (hf.setExclusion_of_unlocated _ _ _ herr), fun error herr =>
      Exclusion.on_setByUnderline_of_refused (hf.setExclusionByUnderline_of_unaddressed _ _ herr),
    ?_, ?_⟩
  · intro y hlocated hfind
    rcases hf.target_or_unlocated u x with ⟨⟨t⟩⟩ | ⟨error, herr⟩
    swap
    · exact absurd herr (hlocated error)
    obtain ⟨hy, hnumber, ⟨t'⟩⟩ := t.found hf hfind
    exact ⟨⟨_, hf.subtree_eq t.node_eq, hy⟩, hnumber,
      hf.setExclusionByUnderline_eq _ _ t hfind, hf.setExclusion_ne_lookup _ _ _ t'⟩
  · intro error herr
    apply step_of_lookup
    rw [perform, hf.setExclusion_of_unlocated _ _ _ herr]
    rfl
  · intro error herr
    apply step_of_lookup
    rw [perform, hf.setExclusionByUnderline_of_unaddressed _ _ herr]
    rfl
  · intro o db' h
    exact hf.framed_of_setExclusion h
  · intro o db' h
    obtain ⟨y, hfind, h⟩ := hf.found_of_setExclusionByUnderline h
    exact ⟨y, hfind, hf.framed_of_setExclusion h⟩

theorem exclusions_exact_sharedGate :
    sharedGate.check = .ok () ∧
      sharedGate.setExclusion .default ⟨1⟩ ⟨5⟩ true true = .error (.lookup (.exprNotFound ⟨5⟩)) ∧
        sharedGate.Unaddressed ⟨1⟩ ⟨2⟩ 8 (.underlineNotFound ⟨2⟩ 8) ∧
          ∃ o db, sharedGate.setExclusionByUnderline .default ⟨1⟩ ⟨2⟩ 9 true = .ok (o, db) ∧
            o.scopes = [⟨0⟩, ⟨1⟩] ∧ sharedGate.Framed ⟨1⟩ ⟨0⟩ o db := by
  have hcheck : sharedGate.check = .ok () := by decide
  have habsent := exclusions_exact hcheck (.new .default) ⟨1⟩ ⟨5⟩ 9 true true
  have hunknown := exclusions_exact hcheck (.new .default) ⟨1⟩ ⟨2⟩ 8 true true
  have hknown := exclusions_exact hcheck (.new .default) ⟨1⟩ ⟨2⟩ 9 true true
  have herr : sharedGate.setExclusionByUnderline .default ⟨1⟩ ⟨2⟩ 8 true =
      .error (.lookup (.underlineNotFound ⟨2⟩ 8)) := by decide +kernel
  have hfound : sharedGate.findByUnderline ⟨2⟩ 9 = .ok ⟨0⟩ := by decide
  have hrun : (sharedGate.setExclusionByUnderline .default ⟨1⟩ ⟨2⟩ 9 true).map (·.1.scopes) =
      .ok [⟨0⟩, ⟨1⟩] := by decide +kernel
  rcases h : sharedGate.setExclusionByUnderline .default ⟨1⟩ ⟨2⟩ 9 true with refusal | ⟨o, db⟩
  · rw [h] at hrun
    cases hrun
  rw [h] at hrun
  obtain ⟨y, hfind, hframed⟩ := hknown.2.2.2.2.2.2.2.2 o db h
  cases hfound.symm.trans hfind
  exact ⟨hcheck, (habsent.1 _).mpr (.expr rfl rfl), (hunknown.2.1 _).mp herr, o, db, rfl,
    Except.ok.inj hrun, hframed⟩

end Session

end LogicCoverage
