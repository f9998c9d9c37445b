import LogicCoverage.Proofs.Relisting
import LogicCoverage.Proofs.Roots

/-!
# The lists of roots against the score of a scope

Listing the roots of a scope is a second walk over its trees, with marks of its own and without a
change of numbers. It goes through where a recalculation of the scope does, and it splits what the
recalculation counts: every point of the scope belongs to one listed root, covered or uncovered.
-/

namespace LogicCoverage

open Finset

/-! ## Counts by column -/

/-- The counts of a tree as columns of a statistic; trees count no lines. -/
def TreeCounts.tally (c : TreeCounts) : Column → Nat
  | .combHit => c.hit.toNat
  | .combTotal => c.total.toNat
  | .combExcluded => c.excluded.toNat
  | _ => 0

/-- The counts of a tree are the tally of its points. -/
theorem TreeCounts.Counts.tally_eq {c : TreeCounts} {points : List Point} (h : c.Counts points) :
    c.tally = pointTally points := by
  funext col
  cases col with
  | combHit => exact h.hit
  | combTotal => exact h.total
  | combExcluded => exact h.excluded
  | lineHit => rfl
  | lineTotal => rfl
  | lineExcluded => rfl

namespace RootLists

variable {roots : List RootSummary} {root : RootSummary}

/-- The roots listed as covered have points, all of them covered. -/
theorem mem_covered : root ∈ (ofRoots roots).covered ↔
    root ∈ roots ∧ root.counts.total ≠ 0 ∧ root.counts.isComplete = true := by
  simp [ofRoots]

/-- The roots listed as uncovered miss a point at least. -/
theorem mem_uncovered : root ∈ (ofRoots roots).uncovered ↔
    root ∈ roots ∧ root.counts.total ≠ 0 ∧ root.counts.isComplete = false := by
  simp [ofRoots]

/-- The roots listed are those with points. -/
theorem mem_ofRoots : root ∈ (ofRoots roots).covered ++ (ofRoots roots).uncovered ↔
    root ∈ roots ∧ root.counts.total ≠ 0 := by
  rw [List.mem_append, mem_covered, mem_uncovered]
  cases root.counts.isComplete <;> simp

/-- Roots that count nothing are left out. -/
theorem sum_ofRoots {f : RootSummary → Nat}
    (h : ∀ root ∈ roots, root.counts.total = 0 → f root = 0) :
    (((ofRoots roots).covered ++ (ofRoots roots).uncovered).map f).sum = (roots.map f).sum := by
  induction roots with
  | nil => rfl
  | cons root roots ih =>
    rw [List.forall_mem_cons] at h
    have hrest := ih h.2
    simp only [ofRoots, List.map_append, List.sum_append, List.filter_cons, List.map_cons,
      List.sum_cons] at hrest ⊢
    by_cases htotal : root.counts.total = 0
    · simp only [htotal, ne_eq, not_true_eq_false, decide_false, Bool.false_and, h.1 htotal]
      simpa using hrest
    · cases hcomplete : root.counts.isComplete <;> simp [htotal, hrest.symm] <;> omega

/-- The two lists are filters of one list by conditions that exclude each other. -/
theorem nodup_ofRoots (h : (roots.map RootSummary.expr).Nodup) :
    (((ofRoots roots).covered ++ (ofRoots roots).uncovered).map RootSummary.expr).Nodup := by
  rw [List.map_append, List.nodup_append]
  refine ⟨h.sublist (List.filter_sublist.map _), h.sublist (List.filter_sublist.map _),
    fun x hx y hy hxy => ?_⟩
  obtain ⟨root, hroot, rfl⟩ := List.mem_map.mp hx
  obtain ⟨root', hroot', rfl⟩ := List.mem_map.mp hy
  obtain ⟨hmem, -, hcomplete⟩ := mem_covered.mp hroot
  obtain ⟨hmem', -, hcomplete'⟩ := mem_uncovered.mp hroot'
  rw [List.inj_on_of_nodup_map h hmem hmem' hxy, hcomplete'] at hcomplete
  cases hcomplete

end RootLists

namespace Database

variable {db : Database} {cfg : ScoringConfig} {id : StmtId} {st : Statement} {root : RootSummary}

/-! ## One root -/

namespace Summarizes

variable (h : db.Summarizes cfg id root)

include h

/-- A summary is of the root of its statement. -/
theorem of_stmt (hs : db.stmt? id = some st) : st.root = root.expr := by
  obtain ⟨st', hs', hroot⟩ := h.stmt
  cases hs.symm.trans hs'
  exact hroot

/-- Counts of points are the share of the statement. -/
theorem tally_eq (hf : db.Forest) {col : Column}
    (hcol : ∀ er lineExcluded, lineTally er lineExcluded col = 0) :
    root.counts.tally col = db.share cfg id col := by
  obtain ⟨st, hs, hroot⟩ := h.stmt
  obtain ⟨er, her, -⟩ := hf.root hs
  rw [share_eq hs her, hcol, Nat.add_zero, h.counts.tally_eq, hroot]

/-- Of a root without points nothing is counted. -/
theorem tally_eq_zero (htotal : root.counts.total = 0) (col : Column) :
    root.counts.tally col = 0 := by
  have hpoints : db.treePoints cfg root.expr = [] := by
    rw [← List.length_eq_zero_iff, ← h.counts.total, htotal]
    rfl
  rw [h.counts.tally_eq, hpoints]
  cases col <;> rfl

/-- A root has a total just if some node below it has points. -/
theorem total_ne_zero_iff : root.counts.total ≠ 0 ↔
    ∃ n ∈ db.nodes root.expr, db.points cfg n ≠ [] := by
  have hlen : root.counts.total = 0 ↔ db.treePoints cfg root.expr = [] := by
    rw [← List.length_eq_zero_iff, ← h.counts.total]
    exact UInt32.toNat_inj.symm
  rw [ne_eq, hlen, treePoints, units, ← List.flatMap_def, List.flatMap_eq_nil_iff]
  push Not
  rfl

/-- A root is complete just if the report has no rows below it. -/
theorem isComplete_iff : root.counts.isComplete = true ↔ db.treeGaps cfg root.expr = [] := by
  have hle : root.counts.hit.toNat ≤ root.counts.total.toNat := by
    rw [h.counts.hit, h.counts.total]
    exact List.countP_le_length
  rw [← List.length_eq_zero_iff, h.length_treeGaps, TreeCounts.isComplete, decide_eq_true_iff,
    ← UInt32.toNat_inj]
  omega

end Summarizes

/-! ## The listed roots -/

/-- The roots of the listed statements, each where its statement first occurs. -/
def listedRoots (db : Database) (stmts : List StmtId) : List ExprId :=
  stmts.eraseDups.filterMap fun id => (db.stmt? id).map Statement.root

/-- The summaries are of the roots, statement by statement. -/
theorem map_expr_eq {ids : List StmtId} {roots : List RootSummary}
    (h : List.Forall₂ (db.Summarizes cfg) ids roots) :
    roots.map RootSummary.expr = ids.filterMap fun id => (db.stmt? id).map Statement.root := by
  induction h with
  | nil => rfl
  | cons hroot _ ih =>
    obtain ⟨st, hs, hexpr⟩ := hroot.stmt
    rw [List.map_cons, List.filterMap_cons, hs, ih, Option.map_some, hexpr]

/-! ## Where a recalculation returns -/

/-- A node of the tree is scored on at least one point. -/
def HasPoints (db : Database) (cfg : ScoringConfig) (root : ExprId) : Prop :=
  ∃ nodes, db.subtree root = .ok nodes ∧
    ∃ n ∈ nodes, ∃ points, db.scoredPoints n cfg = .ok (some points) ∧ points ≠ []

/-- A root has points just if its total says so. -/
theorem Summarizes.hasPoints_iff (h : db.Summarizes cfg id root) (hf : db.Forest) :
    db.HasPoints cfg root.expr ↔ root.counts.total ≠ 0 := by
  obtain ⟨er, her, -⟩ := h.expr
  rw [h.total_ne_zero_iff]
  constructor
  · rintro ⟨nodes, hnodes, n, hn, points, hpoints, hne⟩
    cases (hf.subtree_eq her).symm.trans hnodes
    refine ⟨n, hn, ?_⟩
    rwa [points_of_scoredPoints hpoints]
  · rintro ⟨n, hn, hne⟩
    obtain ⟨o, ho⟩ := h.scorable n hn
    rw [points_of_scoredPoints ho] at hne
    cases o with
    | none => exact absurd rfl hne
    | some points => exact ⟨_, hf.subtree_eq her, n, hn, points, ho, hne⟩

/-- A root is listed as uncovered if some of its points are missing. -/
theorem Summarizes.mem_uncovered_iff (h : db.Summarizes cfg id root) {roots : List RootSummary}
    (hnodup : (roots.map RootSummary.expr).Nodup) (hroot : root ∈ roots) :
    root.expr ∈ (RootLists.ofRoots roots).uncovered.map RootSummary.expr ↔
      db.treeGaps cfg root.expr ≠ [] := by
  rw [ne_eq, ← h.isComplete_iff, Bool.not_eq_true]
  constructor
  · intro hmem
    obtain ⟨root', hroot', heq⟩ := List.mem_map.mp hmem
    obtain ⟨hmem', -, hcomplete⟩ := RootLists.mem_uncovered.mp hroot'
    rwa [← List.inj_on_of_nodup_map hnodup hmem' hroot heq]
  · intro hcomplete
    refine List.mem_map_of_mem (RootLists.mem_uncovered.mpr ⟨hroot, fun htotal => ?_, hcomplete⟩)
    rw [TreeCounts.isComplete, decide_eq_false_iff_not, htotal] at hcomplete
    exact hcomplete (UInt32.toNat_inj.mp (h.tally_eq_zero htotal .combHit))

/-- What a root counts is what a scoring on its own finds. -/
theorem Summarizes.exists_computeTree (h : db.Summarizes cfg id root) (hf : db.Forest)
    (hs : db.stmt? id = some st) (hscored : ∀ fault, ¬ db.Unscored cfg st.root fault)
    {marks : PassMarks} (hm : ∀ x, marks.counted x = false) :
    ∃ marks' d, db.computeTree root.expr cfg marks = .ok (root.counts, marks', d) := by
  rw [← h.of_stmt hs]
  cases hcompute : db.computeTree st.root cfg marks with
  | ok result =>
    obtain ⟨counts, marks', d⟩ := result
    have hcounts := (hf.scored_of_computeTree hs (fun n _ => hm n) hcompute).counts
    exact ⟨marks', d, by rw [h.counts.unique (h.of_stmt hs ▸ hcounts)]⟩
  | error fault =>
    exact absurd (hf.unscored_of_computeTree hs (fun n _ => hm n) hcompute) (hscored fault)

/-- The listed roots are those of statements with points. -/
theorem Forest.mem_ofRoots_expr_iff (hf : db.Forest) {ids : List StmtId}
    {roots : List RootSummary} (h : List.Forall₂ (db.Summarizes cfg) ids roots) {x : ExprId} :
    x ∈ ((RootLists.ofRoots roots).covered ++ (RootLists.ofRoots roots).uncovered).map
        RootSummary.expr ↔
      (∃ id ∈ ids, ∃ st, db.stmt? id = some st ∧ st.root = x) ∧ db.HasPoints cfg x := by
  constructor
  · intro hx
    obtain ⟨root, hroot, rfl⟩ := List.mem_map.mp hx
    obtain ⟨hmem, htotal⟩ := RootLists.mem_ofRoots.mp hroot
    obtain ⟨id, hid, hsum⟩ := exists_of_mem_roots h hmem
    exact ⟨⟨id, hid, hsum.stmt⟩, (hsum.hasPoints_iff hf).mpr htotal⟩
  · rintro ⟨⟨id, hid, st, hs, rfl⟩, hpoints⟩
    obtain ⟨root, hroot, hsum⟩ := exists_of_mem_forall₂ h hid
    rw [hsum.of_stmt hs] at hpoints ⊢
    exact List.mem_map_of_mem
      (RootLists.mem_ofRoots.mpr ⟨hroot, (hsum.hasPoints_iff hf).mp hpoints⟩)

/-- The lists of roots split what a scope's statistic counts. -/
structure Split (db : Database) (cfg : ScoringConfig) (stmts : List StmtId) (stat : Statistic)
    (lists : RootLists) : Prop where
  /-- No root is listed twice. -/
  nodup : ((lists.covered ++ lists.uncovered).map RootSummary.expr).Nodup
  /-- The roots that are listed are those of statements with points. -/
  mem_iff (x : ExprId) : x ∈ (lists.covered ++ lists.uncovered).map RootSummary.expr ↔
    (∃ id ∈ stmts, ∃ st, db.stmt? id = some st ∧ st.root = x) ∧ db.HasPoints cfg x
  covered_order : (lists.covered.map RootSummary.expr).Sublist (db.listedRoots stmts)
  uncovered_order : (lists.uncovered.map RootSummary.expr).Sublist (db.listedRoots stmts)
  /-- Roots are uncovered if a report on their statement has rows. -/
  uncovered_iff {id : StmtId} {st : Statement} : id ∈ stmts → db.stmt? id = some st →
    ∃ rows, db.statementDetail id cfg = .ok rows ∧
      (st.root ∈ lists.uncovered.map RootSummary.expr ↔ rows ≠ [])
  /-- A root has its own line and exclusion, and the counts that a scoring on its own finds. -/
  summary {root : RootSummary} : root ∈ lists.covered ++ lists.uncovered →
    (∃ er, db.expr? root.expr = some er ∧ root.line = er.line ∧ root.excluded = er.excluded) ∧
    ∀ marks : PassMarks, (∀ x, marks.counted x = false) →
      ∃ marks' d, db.computeTree root.expr cfg marks = .ok (root.counts, marks', d)
  hit : ((lists.covered ++ lists.uncovered).map fun root => root.counts.hit.toNat).sum =
    stat.combHit.toNat
  total : ((lists.covered ++ lists.uncovered).map fun root => root.counts.total.toNat).sum =
    stat.combTotal.toNat
  excluded : ((lists.covered ++ lists.uncovered).map fun root => root.counts.excluded.toNat).sum =
    stat.combExcluded.toNat

section Scope

variable {u : ScopeId} {scope : Scope} {stat : Statistic} {db' : Database}
  (hf : db.Forest) (hu : db.scope? u = some scope)
  (h : db.recalcScope u cfg = .ok (stat, db'))

include hf hu h

/-- Where a recalculation returns, every listed tree can be scored on its own. -/
theorem Forest.not_unscored_of_recalcScope (hid : id ∈ scope.statements)
    (hs : db.stmt? id = some st) (fault : Fault) : ¬ db.Unscored cfg st.root fault := by
  obtain ⟨s, hfold, -, -⟩ := (recalcScope_ok_iff hu).mp h
  obtain ⟨htallied, hnumbers⟩ :=
    Tallied.renumbered_of_foldlM (fun id hid => hf.statement hu hid) hf hfold
  have hdone : id ∈ scope.statements.toFinset := List.mem_toFinset.mpr hid
  have hfit : (db.treePoints cfg st.root).length < UInt32.size :=
    calc (db.treePoints cfg st.root).length
      _ ≤ db.share cfg id .combTotal := hf.length_treePoints_le hs
      _ ≤ db.tallyOf cfg scope.statements .combTotal := share_le_tallyOf hid _
      _ = s.statistic.tally .combTotal := (htallied.tally .combTotal).symm
      _ < UInt32.size := s.statistic.tally_lt .combTotal
  intro hfault
  exact hnumbers.roomy hdone st hs (hfault.exhausted (htallied.scorable hdone st hs) hfit).2

/-- Where a scope can be scored, its roots can be collected. -/
theorem Forest.exists_lists_of_recalcScope :
    ∃ roots, List.Forall₂ (db.Summarizes cfg) scope.statements.eraseDups roots ∧
      db.collectRoots u cfg = .ok (RootLists.ofRoots roots) := by
  cases hcollect : db.collectRoots u cfg with
  | ok lists =>
    obtain ⟨roots, hroots, rfl⟩ := hf.collectRoots_ok hu hcollect
    exact ⟨roots, hroots, rfl⟩
  | error refusal =>
    obtain ⟨fault, -, id, hid, st, hs, hfault⟩ := hf.collectRoots_error hu hcollect
    exact absurd hfault (hf.not_unscored_of_recalcScope hu h hid hs fault)

/-- The statistic of a scope is the tally of what it lists. -/
theorem Forest.tally_eq_tallyOf (col : Column) :
    stat.tally col = db.tallyOf cfg scope.statements col := by
  obtain ⟨s, hfold, rfl, -⟩ := (recalcScope_ok_iff hu).mp h
  exact (Tallied.renumbered_of_foldlM (fun id hid => hf.statement hu hid) hf hfold).1.tally col

/-- The counts of the listed roots add up to the statistic of the scope. -/
theorem Forest.sum_ofRoots {roots : List RootSummary}
    (hroots : List.Forall₂ (db.Summarizes cfg) scope.statements.eraseDups roots) (col : Column)
    (hcol : ∀ er lineExcluded, lineTally er lineExcluded col = 0) :
    (((RootLists.ofRoots roots).covered ++ (RootLists.ofRoots roots).uncovered).map
      fun root => root.counts.tally col).sum = stat.tally col := by
  rw [RootLists.sum_ofRoots, sum_roots (fun id root hroot => hroot.tally_eq hf hcol) hroots,
    hf.tally_eq_tallyOf hu h, tallyOf]
  intro root hroot htotal
  obtain ⟨id, -, hsum⟩ := exists_of_mem_roots hroots hroot
  exact hsum.tally_eq_zero htotal col

end Scope

variable {u : ScopeId} {scope : Scope} {stat : Statistic} {db' : Database}

/-- Where a scope of a consistent database can be recalculated, its roots can be listed, and the
lists split what the recalculation counts. The distinct roots of the listed statements that have a
scored point are listed once, in the order in which the statements first occur; a root is uncovered
just if the report on its statement has rows; the counts of a root are those of scoring it on its
own with fresh marks; and they add up to the statistic of the scope. -/
theorem collectRoots_split (hdb : db.check = .ok ()) (hu : db.scope? u = some scope)
    (h : db.recalcScope u cfg = .ok (stat, db')) :
    ∃ lists, db.collectRoots u cfg = .ok lists ∧ db.Split cfg scope.statements stat lists := by
  have hf := forest_of_check hdb
  obtain ⟨roots, hroots, hcollect⟩ := hf.exists_lists_of_recalcScope hu h
  have hnodup : (roots.map RootSummary.expr).Nodup :=
    hf.nodup_roots hroots (Underlining.nodup_eraseDups _)
  have hlisted : roots.map RootSummary.expr = db.listedRoots scope.statements := map_expr_eq hroots
  refine ⟨_, hcollect, ?_⟩
  exact {
    nodup := RootLists.nodup_ofRoots hnodup
    mem_iff := fun x => by
      rw [hf.mem_ofRoots_expr_iff hroots]
      simp only [List.mem_eraseDups]
    covered_order := hlisted ▸ List.filter_sublist.map _
    uncovered_order := hlisted ▸ List.filter_sublist.map _
    uncovered_iff := fun {id st} hid hs => by
      obtain ⟨root, hroot, hsum⟩ := exists_of_mem_forall₂ hroots (List.mem_eraseDups.mpr hid)
      have hexpr := hsum.of_stmt hs
      refine ⟨_, hf.statementDetail_eq hs (hexpr ▸ hsum.scorable), ?_⟩
      rw [hexpr]
      exact hsum.mem_uncovered_iff hnodup hroot
    summary := fun {root} hroot => by
      obtain ⟨id, hid, hsum⟩ := exists_of_mem_roots hroots (RootLists.mem_ofRoots.mp hroot).1
      obtain ⟨st, hs, -⟩ := hsum.stmt
      exact ⟨hsum.expr, fun marks hm => hsum.exists_computeTree hf hs
        (hf.not_unscored_of_recalcScope hu h (List.mem_eraseDups.mp hid) hs) hm⟩
    hit := hf.sum_ofRoots hu h hroots .combHit fun _ _ => rfl
    total := hf.sum_ofRoots hu h hroots .combTotal fun _ _ => rfl
    excluded := hf.sum_ofRoots hu h hroots .combExcluded fun _ _ => rfl }

/-- Three statements, two of which are listed twice: an edge that did not fire and has an old
number, an assignment's target, which is not scored, and an edge that fired. -/
def edgesAndTarget : Database where
  exprs := #[
    { Expression.new .posEdge 1 3 with parent := .stmt ⟨0⟩, underline := some 7 },
    { Expression.new .signal 1 4 with parent := .stmt ⟨1⟩, lhs := true },
    { Expression.new .negEdge 1 5 with parent := .stmt ⟨2⟩, wasTrue := true }]
  stmts := #[⟨⟨0⟩, false⟩, ⟨⟨1⟩, false⟩, ⟨⟨2⟩, false⟩]
  scopes := #[⟨"top", .moduleScope, [⟨2⟩, ⟨0⟩, ⟨1⟩, ⟨2⟩, ⟨0⟩], [], .zero⟩]

theorem collectRoots_split_edgesAndTarget :
    edgesAndTarget.check = .ok () ∧
      (edgesAndTarget.recalcScope ⟨0⟩ .default).map (·.1) = .ok ⟨1, 2, 0, 0, 3, 0⟩ ∧
      edgesAndTarget.collectRoots ⟨0⟩ .default =
        .ok ⟨[⟨⟨2⟩, 5, false, ⟨1, 1, 0⟩⟩], [⟨⟨0⟩, 3, false, ⟨0, 1, 0⟩⟩]⟩ ∧
      edgesAndTarget.Split .default [⟨2⟩, ⟨0⟩, ⟨1⟩, ⟨2⟩, ⟨0⟩] ⟨1, 2, 0, 0, 3, 0⟩
        ⟨[⟨⟨2⟩, 5, false, ⟨1, 1, 0⟩⟩], [⟨⟨0⟩, 3, false, ⟨0, 1, 0⟩⟩]⟩ := by
  have hcheck : edgesAndTarget.check = .ok () := by decide
  have hstat : (edgesAndTarget.recalcScope ⟨0⟩ .default).map (·.1) = .ok ⟨1, 2, 0, 0, 3, 0⟩ := by
    decide +kernel
  have hlists : edgesAndTarget.collectRoots ⟨0⟩ .default =
      .ok ⟨[⟨⟨2⟩, 5, false, ⟨1, 1, 0⟩⟩], [⟨⟨0⟩, 3, false, ⟨0, 1, 0⟩⟩]⟩ := by
    decide +kernel
  refine ⟨hcheck, hstat, hlists, ?_⟩
  cases hrecalc : edgesAndTarget.recalcScope ⟨0⟩ .default with
  | error refusal =>
    rw [hrecalc] at hstat
    cases hstat
  | ok result =>
    rw [hrecalc] at hstat
    obtain ⟨lists, hcollect, hsplit⟩ :=
      collectRoots_split hcheck (show edgesAndTarget.scope? ⟨0⟩ = some _ by rfl) hrecalc
    cases hlists.symm.trans hcollect
    rwa [← Except.ok.inj hstat]

end Database

end LogicCoverage
