import LogicCoverage.Proofs.Addresses

/-!
# The statement roots of a scope

The roots of a scope are listed with the counts of their trees, each root once and in the order in
which its statement first occurs. Roots without points are left out; the others are covered or
uncovered. What the uncovered ones miss is what the scope misses.
-/

namespace LogicCoverage

open Finset

/-! ## The lists -/

namespace RootLists

/-- The roots by whether something is missing in their trees, without those that have no points. -/
def ofRoots (roots : List RootSummary) : RootLists where
  covered := roots.filter fun r => r.counts.total ≠ 0 && r.counts.isComplete
  uncovered := roots.filter fun r => r.counts.total ≠ 0 && !r.counts.isComplete

/-- Roots are listed in the order in which they come. -/
theorem insert_ofRoots (roots : List RootSummary) (r : RootSummary) :
    (ofRoots roots).insert r = ofRoots (roots ++ [r]) := by
  by_cases htotal : r.counts.total = 0
  · simp [insert, ofRoots, htotal]
  · cases hcomplete : r.counts.isComplete <;> simp [insert, ofRoots, htotal, hcomplete]

/-- Only uncovered roots miss something. -/
theorem sum_uncovered (roots : List RootSummary) :
    ((ofRoots roots).uncovered.map fun r => r.counts.total.toNat - r.counts.hit.toNat).sum =
      (roots.map fun r => r.counts.total.toNat - r.counts.hit.toNat).sum := by
  induction roots with
  | nil => rfl
  | cons r roots ih =>
    simp only [ofRoots] at ih ⊢
    rw [List.filter_cons, List.map_cons, List.sum_cons, ← ih]
    split
    · rfl
    · rename_i hleft
      have hnone : r.counts.total.toNat - r.counts.hit.toNat = 0 := by
        by_cases htotal : r.counts.total = 0
        · simp [htotal]
        · have hcomplete : r.counts.hit = r.counts.total := by
            simpa [htotal, TreeCounts.isComplete] using hleft
          rw [hcomplete, Nat.sub_self]
      rw [hnone, Nat.zero_add]

end RootLists

namespace Database

variable {db : Database} {cfg : ScoringConfig} {id : StmtId} {st : Statement} {marks : PassMarks}
  {lists lists' : RootLists}

/-- The root of a statement, with the counts of its tree. -/
structure Summarizes (db : Database) (cfg : ScoringConfig) (id : StmtId) (root : RootSummary) :
    Prop where
  stmt : ∃ st, db.stmt? id = some st ∧ st.root = root.expr
  expr : ∃ er, db.expr? root.expr = some er ∧ root.line = er.line ∧ root.excluded = er.excluded
  counts : root.counts.Counts (db.treePoints cfg root.expr)
  scorable : ∀ n ∈ db.nodes root.expr, db.Scorable cfg n

/-- A scoring answers what it counted, and leaves its numbers behind. -/
theorem computeTree_of_scoreTree {root : ExprId} {s : TreeScore}
    (h : db.scoreTree root cfg marks = .ok s) :
    db.computeTree root cfg marks = .ok (s.counts, s.marks, s.underlining.db) := by
  rw [computeTree, h]
  rfl

theorem computeTree_of_scoreTree_error {root : ExprId} {fault : Fault}
    (h : db.scoreTree root cfg marks = .error fault) :
    db.computeTree root cfg marks = .error fault := by
  rw [computeTree, h]
  rfl

/-- What is known of the lists when some statements are done; these may repeat. -/
structure Collected (db : Database) (cfg : ScoringConfig) (done : List StmtId)
    (s : RootLists × PassMarks) : Prop where
  /-- Only nodes of statements that are done are counted. -/
  counted {x : ExprId} : s.2.counted x = true →
    ∃ id ∈ done, ∃ st, db.stmt? id = some st ∧ x ∈ db.nodes st.root
  root {id : StmtId} {st : Statement} : id ∈ done → db.stmt? id = some st →
    s.2.counted st.root = true
  lists : ∃ roots, List.Forall₂ (db.Summarizes cfg) done.eraseDups roots ∧
    s.1 = RootLists.ofRoots roots

namespace Collected

variable {done stmts : List StmtId} {s s' : RootLists × PassMarks}

/-- Nothing is collected at the start. -/
theorem start (db : Database) (cfg : ScoringConfig) (n : Nat) :
    Collected db cfg [] (⟨[], []⟩, .new n) where
  counted {x} hc := by
    rw [PassMarks.counted_new] at hc
    cases hc
  root hid := absurd hid List.not_mem_nil
  lists := ⟨[], .nil, rfl⟩

variable (h : Collected db cfg done s) (hf : db.Forest)

include h hf

/-- The nodes of a statement that is not done are not counted. -/
theorem uncounted (hs : db.stmt? id = some st) (hid : id ∉ done) :
    ∀ n ∈ db.nodes st.root, s.2.counted n = false := by
  intro n hn
  rw [Bool.eq_false_iff]
  intro hc
  obtain ⟨id', hid', st', hs', hmem⟩ := h.counted hc
  exact hid (hf.stmt_eq_of_mem_nodes hs hs' hn hmem ▸ hid')

/-- A statement that is done is passed over, and another one's tree is scored. -/
theorem step_eq (hs : db.stmt? id = some st) :
    RootLists.step db cfg s id =
      if id ∈ done then .ok s
      else do
        let score ← db.scoreTree st.root cfg s.2
        let e ← db.expr st.root
        return (s.1.insert ⟨st.root, e.line, e.excluded, score.counts⟩,
          score.marks.mark st.root) := by
  obtain ⟨er, her, -⟩ := hf.root hs
  rw [RootLists.step]
  dsimp only
  rw [db.stmt_eq_ok_iff.mpr hs, ok_bind]
  by_cases hid : id ∈ done
  · exact (if_pos (h.root hid hs)).trans (if_pos hid).symm
  · rw [if_neg hid, if_neg]
    rw [h.uncounted hf hs hid st.root (hf.self_mem_nodes her)]
    exact Bool.false_ne_true

/-- A step collects its statement. -/
theorem step_ok (hs : db.stmt? id = some st) (hstep : RootLists.step db cfg s id = .ok s') :
    Collected db cfg (done ++ [id]) s' := by
  rw [h.step_eq hf hs] at hstep
  split at hstep <;> rename_i hid
  -- a statement that is met again adds nothing
  · cases hstep
    have hmem (id' : StmtId) : id' ∈ done ++ [id] ↔ id' ∈ done := by
      rw [List.mem_append, List.mem_singleton, or_iff_left_iff_imp]
      rintro rfl
      exact hid
    obtain ⟨roots, hroots, hlists⟩ := h.lists
    refine ⟨fun hc => ?_, fun hid' => h.root ((hmem _).mp hid'), roots, ?_, hlists⟩
    · obtain ⟨id', hid', hst⟩ := h.counted hc
      exact ⟨id', (hmem id').mpr hid', hst⟩
    · have hold : [id].removeAll done = [] := by
        simp [List.removeAll, hid]
      rw [List.eraseDups_append, hold]
      simpa using hroots
  · obtain ⟨score, hscore, hstep⟩ := bind_eq_ok_iff.mp hstep
    obtain ⟨er, her, hstep⟩ := bind_eq_ok_iff.mp hstep
    cases hstep
    rw [db.expr_eq_ok_iff] at her
    have hscored := hf.scored_of_computeTree hs (h.uncounted hf hs hid)
      (computeTree_of_scoreTree hscore)
    obtain ⟨roots, hroots, hlists⟩ := h.lists
    refine ⟨fun {x} hc => ?_, fun {id' st'} hid' hs' => ?_,
      roots ++ [⟨st.root, er.line, er.excluded, score.counts⟩], ?_, ?_⟩
    · rw [PassMarks.counted_mark, Bool.or_eq_true, decide_eq_true_eq] at hc
      have hself : id ∈ done ++ [id] := List.mem_append_right _ (List.mem_singleton_self id)
      rcases hc with hc | rfl
      · rcases hscored.marks.within hc with hc | hc
        · obtain ⟨id', hid', hst⟩ := h.counted hc
          exact ⟨id', List.mem_append_left _ hid', hst⟩
        · exact ⟨id, hself, st, hs, hc⟩
      · exact ⟨id, hself, st, hs, hf.self_mem_nodes her⟩
    · rw [PassMarks.counted_mark, Bool.or_eq_true, decide_eq_true_eq]
      rcases List.mem_append.mp hid' with hid' | hid'
      · exact .inl (hscored.marks.kept (h.root hid' hs'))
      · rw [List.mem_singleton] at hid'
        subst hid'
        cases hs.symm.trans hs'
        exact .inr rfl
    · have hnew : [id].removeAll done = [id] := by
        simp [List.removeAll, hid]
      rw [List.eraseDups_append, hnew]
      refine List.rel_append hroots (.cons ⟨⟨st, hs, rfl⟩, ⟨er, her, rfl, rfl⟩, ?_, ?_⟩ .nil)
      · exact hscored.counts
      · exact hscored.scorable
    · rw [hlists, RootLists.insert_ofRoots]

/-- A step that fails shows why its tree cannot be scored. -/
theorem step_error (hs : db.stmt? id = some st) {fault : Fault}
    (hstep : RootLists.step db cfg s id = .error fault) : db.Unscored cfg st.root fault := by
  obtain ⟨er, her, -⟩ := hf.root hs
  rw [h.step_eq hf hs] at hstep
  split at hstep <;> rename_i hid
  · cases hstep
  · rcases bind_eq_error_iff.mp hstep with hscore | ⟨score, -, hstep⟩
    · exact hf.unscored_of_computeTree hs (h.uncounted hf hs hid)
        (computeTree_of_scoreTree_error hscore)
    · rw [db.expr_eq_ok_iff.mpr her] at hstep
      cases hstep

variable (hex : ∀ id ∈ stmts, ∃ st, db.stmt? id = some st)

include hex

/-- One step after the other collects all statements. -/
theorem foldlM_ok (hfold : stmts.foldlM (RootLists.step db cfg) s = .ok s') :
    Collected db cfg (done ++ stmts) s' := by
  induction stmts generalizing done s with
  | nil =>
    cases hfold
    rwa [List.append_nil]
  | cons id stmts ih =>
    rw [List.forall_mem_cons] at hex
    obtain ⟨⟨st, hs⟩, hex⟩ := hex
    rw [List.foldlM_cons] at hfold
    obtain ⟨s₁, hstep, hfold⟩ := bind_eq_ok_iff.mp hfold
    have hrest := ih (h.step_ok hf hs hstep) hex hfold
    rwa [List.append_assoc] at hrest

/-- If a step fails, the tree of some statement cannot be scored. -/
theorem foldlM_error {fault : Fault}
    (hfold : stmts.foldlM (RootLists.step db cfg) s = .error fault) :
    ∃ id ∈ stmts, ∃ st, db.stmt? id = some st ∧ db.Unscored cfg st.root fault := by
  induction stmts generalizing done s with
  | nil => cases hfold
  | cons id stmts ih =>
    rw [List.forall_mem_cons] at hex
    obtain ⟨⟨st, hs⟩, hex⟩ := hex
    rw [List.foldlM_cons] at hfold
    rcases bind_eq_error_iff.mp hfold with hstep | ⟨s₁, hstep, hfold⟩
    · exact ⟨id, List.mem_cons_self, st, hs, h.step_error hf hs hstep⟩
    · obtain ⟨id', hid', hst⟩ := ih (h.step_ok hf hs hstep) hex hfold
      exact ⟨id', List.mem_cons_of_mem id hid', hst⟩

end Collected

/-! ## The roots of a scope -/

section Scope

variable {u : ScopeId} {scope : Scope} (hf : db.Forest) (hu : db.scope? u = some scope)

/-- The collection goes through the statements of the scope with fresh marks. -/
theorem collectRoots_eq (hu : db.scope? u = some scope) :
    db.collectRoots u cfg = Checked.request (do
      let s ← scope.statements.foldlM (RootLists.step db cfg) (⟨[], []⟩, .new db.exprs.size)
      return s.1) := by
  rw [collectRoots, hu]
  show (Checked.request _ >>= _) = _
  cases scope.statements.foldlM (RootLists.step db cfg) (⟨[], []⟩, .new db.exprs.size) <;> rfl

include hf hu

/-- The roots of the listed statements are listed, each once. -/
theorem Forest.collectRoots_ok (h : db.collectRoots u cfg = .ok lists) :
    ∃ roots, List.Forall₂ (db.Summarizes cfg) scope.statements.eraseDups roots ∧
      lists = RootLists.ofRoots roots := by
  rw [collectRoots_eq hu, Checked.request_eq_ok_iff] at h
  obtain ⟨s, hfold, h⟩ := bind_eq_ok_iff.mp h
  cases h
  exact ((Collected.start db cfg db.exprs.size).foldlM_ok hf (fun id hid => hf.statement hu hid)
    hfold).lists

/-- The roots of a scope can be listed, unless the tree of one of them cannot be scored. -/
theorem Forest.collectRoots_error {refusal : Refusal}
    (h : db.collectRoots u cfg = .error refusal) :
    ∃ fault, refusal = .fault fault ∧
      ∃ id ∈ scope.statements, ∃ st, db.stmt? id = some st ∧ db.Unscored cfg st.root fault := by
  rw [collectRoots_eq hu] at h
  obtain ⟨fault, rfl⟩ := Checked.fault_of_request h
  refine ⟨fault, rfl, ?_⟩
  cases hfold : scope.statements.foldlM (RootLists.step db cfg)
      (⟨[], []⟩, .new db.exprs.size) with
  | ok s =>
    rw [hfold] at h
    cases h
  | error fault' =>
    rw [hfold] at h
    cases h
    exact (Collected.start db cfg db.exprs.size).foldlM_error hf
      (fun id hid => hf.statement hu hid) hfold

/-- The roots of a current scope can be listed. -/
theorem Current.collectRoots_eq (h : db.Current cfg u) :
    ∃ roots, List.Forall₂ (db.Summarizes cfg) scope.statements.eraseDups roots ∧
      db.collectRoots u cfg = .ok (RootLists.ofRoots roots) := by
  cases hcollect : db.collectRoots u cfg with
  | ok lists =>
    obtain ⟨roots, hroots, rfl⟩ := hf.collectRoots_ok hu hcollect
    exact ⟨roots, hroots, rfl⟩
  | error refusal =>
    obtain ⟨fault, -, id, hid, st, hs, hfault⟩ := hf.collectRoots_error hu hcollect
    have hfit : (db.treePoints cfg st.root).length < UInt32.size :=
      Nat.lt_of_le_of_lt ((hf.length_treePoints_le hs).trans (share_le_tallyOf hid _))
        (h.exact.fits hu .combTotal)
    have hcrowded := (hfault.exhausted (h.exact.scorable hu id hid st hs) hfit).2
    exact absurd hcrowded (h.settled hu id hid st hs).not_crowded

end Scope

/-! ## What the roots miss -/

namespace Summarizes

variable {root root' : RootSummary}

/-- A root belongs to one statement. -/
theorem stmt_eq {id id' : StmtId} (hf : db.Forest) (h : db.Summarizes cfg id root)
    (h' : db.Summarizes cfg id' root') (heq : root.expr = root'.expr) : id = id' := by
  obtain ⟨st, hs, hroot⟩ := h.stmt
  obtain ⟨st', hs', hroot'⟩ := h'.stmt
  obtain ⟨er, her, -⟩ := hf.root hs
  have hself := hf.self_mem_nodes her
  refine hf.stmt_eq_of_mem_nodes hs hs' hself ?_
  rwa [hroot', ← heq, ← hroot]

/-- What a root misses is what its statement adds to the total and not to the hits. -/
theorem missing_eq (h : db.Summarizes cfg id root) (hf : db.Forest) :
    root.counts.total.toNat - root.counts.hit.toNat =
      db.share cfg id .combTotal - db.share cfg id .combHit := by
  obtain ⟨st, hs, hroot⟩ := h.stmt
  obtain ⟨er, her, -⟩ := hf.root hs
  rw [share_eq hs her, share_eq hs her, h.counts.total, h.counts.hit, ← hroot]
  rfl

/-- The uncovered points of a root have a row each. -/
theorem length_treeGaps (h : db.Summarizes cfg id root) :
    (db.treeGaps cfg root.expr).length = root.counts.total.toNat - root.counts.hit.toNat := by
  have hlen : (db.treeGaps cfg root.expr).length + _ = _ := Forest.length_treeGaps root.expr
  rw [h.counts.total, h.counts.hit]
  omega

end Summarizes

theorem exists_of_mem_roots {ids : List StmtId} {roots : List RootSummary} {root : RootSummary}
    (h : List.Forall₂ (db.Summarizes cfg) ids roots) (hroot : root ∈ roots) :
    ∃ id ∈ ids, db.Summarizes cfg id root :=
  exists_of_mem_forall₂ h.flip hroot

/-- The roots of distinct statements are distinct. -/
theorem Forest.nodup_roots (hf : db.Forest) {ids : List StmtId} {roots : List RootSummary}
    (h : List.Forall₂ (db.Summarizes cfg) ids roots) (hids : ids.Nodup) :
    (roots.map RootSummary.expr).Nodup := by
  induction h with
  | nil => exact List.nodup_nil
  | @cons id root ids roots hroot hroots ih =>
    rw [List.nodup_cons] at hids
    rw [List.map_cons, List.nodup_cons]
    refine ⟨fun hmem => ?_, ih hids.2⟩
    obtain ⟨root', hroot', heq⟩ := List.mem_map.mp hmem
    obtain ⟨id', hid', hsum⟩ := exists_of_mem_roots hroots hroot'
    exact hids.1 (hroot.stmt_eq hf hsum heq.symm ▸ hid')

/-- Adding up over the roots of a scope is adding up over its statements, each once. -/
theorem sum_roots {f : RootSummary → Nat} {g : StmtId → Nat}
    (hfg : ∀ id root, db.Summarizes cfg id root → f root = g id) {stmts : List StmtId}
    {roots : List RootSummary} (h : List.Forall₂ (db.Summarizes cfg) stmts.eraseDups roots) :
    (roots.map f).sum = ∑ id ∈ stmts.toFinset, g id := by
  have hlist {ids : List StmtId} {roots : List RootSummary}
      (h : List.Forall₂ (db.Summarizes cfg) ids roots) : roots.map f = ids.map g := by
    induction h with
    | nil => rfl
    | cons hroot _ ih => rw [List.map_cons, List.map_cons, ih, hfg _ _ hroot]
  have hset : stmts.eraseDups.toFinset = stmts.toFinset := by
    ext id
    simp
  rw [hlist h, ← List.sum_toFinset _ (Underlining.nodup_eraseDups stmts), hset]

/-- What the roots of a scope miss is what is missing in its tally. -/
theorem Forest.sum_missing (hf : db.Forest) {stmts : List StmtId} {roots : List RootSummary}
    (h : List.Forall₂ (db.Summarizes cfg) stmts.eraseDups roots) :
    (roots.map fun r => r.counts.total.toNat - r.counts.hit.toNat).sum =
      db.tallyOf cfg stmts .combTotal - db.tallyOf cfg stmts .combHit := by
  rw [sum_roots (fun id root hroot => hroot.missing_eq hf) h, tallyOf, tallyOf,
    sum_tsub_distrib _ fun id _ => (share_ordered id).combHit_le]

end Database

end LogicCoverage
