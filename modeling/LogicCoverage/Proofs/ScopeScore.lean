import LogicCoverage.Proofs.Numbers
import LogicCoverage.Proofs.Tally

/-!
# The score of a scope

A recalculation goes through the statements that a scope lists. Trees of different statements are
disjoint, so that a root counted before belongs to a statement that is listed twice; hence the
result is the tally of the scope.
-/

namespace LogicCoverage

open Relation Finset

/-! ## One statement -/

/-- Counts are added column by column, if all of them fit. -/
theorem TreeCounts.add_eq_ok_iff {a b c : TreeCounts} :
    a.add b = .ok c ↔ c.hit.toNat = a.hit.toNat + b.hit.toNat ∧
      c.total.toNat = a.total.toNat + b.total.toNat ∧
        c.excluded.toNat = a.excluded.toNat + b.excluded.toNat := by
  simp only [add, bind_eq_ok_iff, Counter.add_eq_ok_iff, pure, Except.pure, Except.ok.injEq]
  constructor
  · rintro ⟨hit, hh, total, ht, excluded, he, rfl⟩
    exact ⟨hh, ht, he⟩
  · rintro ⟨hh, ht, he⟩
    exact ⟨_, hh, _, ht, _, he, rfl⟩

namespace ScopeScore

/-- A line that is counted adds to its columns. -/
theorem countLine_ok {stat stat' : Statistic} {root : Expression} {stmt : Statement}
    (h : countLine stat root stmt = .ok stat') (col : Column) :
    stat'.tally col = stat.tally col + lineTally root stmt.lineExcluded col := by
  unfold countLine at h
  cases hline : root.hasLine with
  | false =>
    rw [hline] at h
    cases h
    cases col <;> simp [lineTally, hline]
  | true =>
    rw [hline] at h
    obtain ⟨total, ht, h⟩ := bind_eq_ok_iff.mp h
    rw [Counter.add_eq_ok_iff] at ht
    split at h <;> rename_i hexec
    · obtain ⟨hit, hh, h⟩ := bind_eq_ok_iff.mp h
      rw [Counter.add_eq_ok_iff] at hh
      cases h
      cases col <;> simp [Statistic.tally, lineTally, hline, hexec, ht, hh]
    · split at h <;> rename_i hex
      · obtain ⟨hit, hh, h⟩ := bind_eq_ok_iff.mp h
        obtain ⟨excluded, he, h⟩ := bind_eq_ok_iff.mp h
        rw [Counter.add_eq_ok_iff] at hh he
        cases h
        cases col <;> simp [Statistic.tally, lineTally, hline, hexec, hex, ht, hh, he]
      · cases h
        cases col <;> simp [Statistic.tally, lineTally, hline, hexec, hex, ht]

/-- A line is not counted only if a column does not fit. -/
theorem countLine_error {s : ScopeScore} {root : Expression} {stmt : Statement} {fault : Fault}
    (h : countLine s.stat root stmt = .error fault) :
    fault = .counterOverflow ∧
      ∃ col, UInt32.size ≤ s.statistic.tally col + lineTally root stmt.lineExcluded col := by
  unfold countLine at h
  cases hline : root.hasLine with
  | false =>
    rw [hline] at h
    cases h
  | true =>
    rw [hline] at h
    rcases bind_eq_error_iff.mp h with ht | ⟨total, ht, h⟩
    · obtain ⟨rfl, hsize⟩ := Counter.add_error ht
      exact ⟨rfl, .lineTotal, by simpa [statistic, Statistic.tally, lineTally, hline] using hsize⟩
    · split at h <;> rename_i hexec
      · rcases bind_eq_error_iff.mp h with hh | ⟨hit, -, h⟩
        · obtain ⟨rfl, hsize⟩ := Counter.add_error hh
          exact ⟨rfl, .lineHit, by
            simpa [statistic, Statistic.tally, lineTally, hline, hexec] using hsize⟩
        · cases h
      · split at h <;> rename_i hex
        · rcases bind_eq_error_iff.mp h with hh | ⟨hit, -, h⟩
          · obtain ⟨rfl, hsize⟩ := Counter.add_error hh
            exact ⟨rfl, .lineHit, by
              simpa [statistic, Statistic.tally, lineTally, hline, hex] using hsize⟩
          · rcases bind_eq_error_iff.mp h with he | ⟨excluded, -, h⟩
            · obtain ⟨rfl, hsize⟩ := Counter.add_error he
              exact ⟨rfl, .lineExcluded, by
                simpa [statistic, Statistic.tally, lineTally, hline, hexec, hex] using hsize⟩
            · cases h
        · cases h

end ScopeScore

/-! ## The listed statements -/

/-- What is known of a recalculation when some of the statements are done. -/
structure Tallied (db : Database) (cfg : ScoringConfig) (done : Finset StmtId) (s : ScopeScore) :
    Prop where
  runs : ReflTransGen (Database.Rescored cfg) db s.db
  tally (col : Column) : s.statistic.tally col = ∑ id ∈ done, db.share cfg id col
  /-- Only nodes of statements that are done are counted. -/
  counted {x : ExprId} : s.marks.counted x = true →
    ∃ id ∈ done, ∃ stmt, db.stmt? id = some stmt ∧ x ∈ db.nodes stmt.root
  root {id : StmtId} {stmt : Statement} : id ∈ done → db.stmt? id = some stmt →
    s.marks.counted stmt.root = true
  settled {id : StmtId} : id ∈ done → s.db.Settled cfg id
  scorable {id : StmtId} : id ∈ done → db.TreeScorable cfg id

namespace Database

variable {db db' : Database} {cfg : ScoringConfig}

/-- Scorings touch neither more than scores nor any scope. -/
theorem unscored_of_rescorings (h : ReflTransGen (Rescored cfg) db db') :
    db'.unscored = db.unscored ∧ db'.scopes = db.scopes := by
  induction h with
  | refl => exact ⟨rfl, rfl⟩
  | tail _ hstep ih => exact ⟨hstep.unscored.trans ih.1, hstep.scopes.trans ih.2⟩

/-- What every scoring of a tree keeps, a series of them keeps. -/
theorem rescorings_induction {P : Database → Prop} (h : ReflTransGen (Rescored cfg) db db')
    (hf : db.Forest) (step : ∀ {d d' : Database}, d.Forest → Rescored cfg d d' → P d → P d')
    (hdb : P db) : P db' := by
  induction h with
  | refl => exact hdb
  | tail hruns hstep ih =>
    exact step (hf.congr (bare_eq_of_unscored (unscored_of_rescorings hruns).1)) hstep ih

end Database

namespace Tallied

variable {db : Database} {cfg : ScoringConfig} {done : Finset StmtId} {s s' : ScopeScore}
  {id : StmtId} {stmt : Statement}

/-- The root of a statement was counted just if the statement is done. -/
theorem counted_root_iff (h : Tallied db cfg done s) (hf : db.Forest)
    (hs : db.stmt? id = some stmt) : s.marks.counted stmt.root = true ↔ id ∈ done := by
  constructor
  · intro hc
    obtain ⟨id', hid', stmt', hs', hmem⟩ := h.counted hc
    obtain ⟨er, her, -⟩ := hf.root hs
    rwa [hf.stmt_eq_of_mem_nodes hs hs' (hf.self_mem_nodes her) hmem]
  · exact fun hid => h.root hid hs

/-- No node of a statement that is not done was counted. -/
theorem uncounted (h : Tallied db cfg done s) (hf : db.Forest) (hs : db.stmt? id = some stmt)
    (hid : id ∉ done) : ∀ n ∈ db.nodes stmt.root, s.marks.counted n = false := by
  intro n hn
  rw [Bool.eq_false_iff]
  intro hc
  obtain ⟨id', hid', stmt', hs', hmem⟩ := h.counted hc
  exact hid (hf.stmt_eq_of_mem_nodes hs hs' hn hmem ▸ hid')

/-- Nothing is tallied at the start. -/
theorem start (db : Database) (cfg : ScoringConfig) :
    Tallied db cfg ∅ ⟨db, .new db.exprs.size, .zero, .zero⟩ where
  runs := .refl
  tally col := by cases col <;> rfl
  counted {x} hc := by
    rw [PassMarks.counted_new] at hc
    cases hc
  root hid := by simp at hid
  settled hid := by simp at hid
  scorable hid := by simp at hid

/-- What a statement that is not done adds. -/
theorem statistic_tally {counts comb : TreeCounts} {points : List Point} {root : Expression}
    {stat : Statistic} (hcounts : counts.Counts points) (hcomb : s.comb.add counts = .ok comb)
    (hstat : ScopeScore.countLine s.stat root stmt = .ok stat) (db : Database) (marks : PassMarks)
    (col : Column) :
    (ScopeScore.statistic ⟨db, marks, comb, stat⟩).tally col =
      pointTally points col + lineTally root stmt.lineExcluded col + s.statistic.tally col := by
  obtain ⟨hh, ht, he⟩ := TreeCounts.add_eq_ok_iff.mp hcomb
  have hline := ScopeScore.countLine_ok hstat col
  rw [hcounts.hit] at hh
  rw [hcounts.total] at ht
  rw [hcounts.excluded] at he
  cases col <;>
    simp only [ScopeScore.statistic, Statistic.tally, pointTally, lineTally] at hline ⊢ <;> omega

/-- A statement that is done is passed over, and another one's tree is scored. -/
theorem step_eq (h : Tallied db cfg done s) (hf : db.Forest) (hs : db.stmt? id = some stmt) :
    ScopeScore.step cfg s id =
      if id ∈ done then .ok s
      else do
        let (counts, marks, db) ← s.db.computeTree stmt.root cfg s.marks
        let comb ← s.comb.add counts
        let stat ← ScopeScore.countLine s.stat (← db.expr stmt.root) stmt
        return ⟨db, marks.mark stmt.root, comb, stat⟩ := by
  have hs₁ : s.db.stmt? id = some stmt := by
    rwa [Database.stmt?_eq_of_unscored (Database.unscored_of_rescorings h.runs).1]
  rw [ScopeScore.step, s.db.stmt_eq_ok_iff.mpr hs₁, ok_bind]
  by_cases hid : id ∈ done
  · exact (if_pos (h.root hid hs)).trans (if_pos hid).symm
  · rw [if_neg hid, if_neg fun hc => hid ((h.counted_root_iff hf hs).mp hc)]

/-- What is known of the tree of a statement that is not done. -/
theorem before (h : Tallied db cfg done s) (hf : db.Forest) (hs : db.stmt? id = some stmt)
    (hid : id ∉ done) :
    s.db.Forest ∧ s.db.stmt? id = some stmt ∧ s.db.nodes stmt.root = db.nodes stmt.root ∧
      s.db.share cfg = db.share cfg ∧ ∀ n ∈ s.db.nodes stmt.root, s.marks.counted n = false := by
  obtain ⟨hunscored, -⟩ := Database.unscored_of_rescorings h.runs
  have hb := Database.bare_eq_of_unscored hunscored
  refine ⟨hf.congr hb, ?_, Database.nodes_congr hb _, hf.share_eq_of_unscored hunscored, ?_⟩
  · rwa [Database.stmt?_eq_of_unscored hunscored]
  · rw [Database.nodes_congr hb]
    exact h.uncounted hf hs hid

/-- A statement that is scored is tallied, together with its line. -/
theorem insert {counts comb : TreeCounts} {marks : PassMarks} {db₁ : Database}
    {root : Expression} {stat : Statistic} (h : Tallied db cfg done s) (hf : db.Forest)
    (hs : db.stmt? id = some stmt) (hid : id ∉ done)
    (hscored : s.db.Scored cfg stmt.root s.marks counts marks db₁)
    (hcomb : s.comb.add counts = .ok comb) (hr : db₁.expr? stmt.root = some root)
    (hstat : ScopeScore.countLine s.stat root stmt = .ok stat) :
    Tallied db cfg (insert id done) ⟨db₁, marks.mark stmt.root, comb, stat⟩ := by
  obtain ⟨hf₁, hs₁, hnodes, hshare, -⟩ := h.before hf hs hid
  obtain ⟨er, her, -⟩ := hf₁.root hs₁
  have hrun : Database.Rescored cfg s.db db₁ := ⟨id, stmt, s.marks, counts, marks, hs₁, hscored⟩
  refine ⟨h.runs.tail hrun, ?_, ?_, ?_, ?_, ?_⟩
  · intro col
    obtain ⟨root', hr', hbare⟩ := Database.exists_expr?_of_bare hscored.bare her
    cases hr.symm.trans hr'
    rw [sum_insert hid, ← h.tally col, ← hshare, Database.share_eq hs₁ her,
      statistic_tally hscored.counts hcomb hstat, ← lineTally_bare er, ← hbare, lineTally_bare]
  · intro x hx
    rw [PassMarks.counted_mark, Bool.or_eq_true, decide_eq_true_eq] at hx
    rcases hx with hx | rfl
    · rcases hscored.marks.within hx with hx | hx
      · obtain ⟨id', hid', stmt', hs', hmem⟩ := h.counted hx
        exact ⟨id', mem_insert_of_mem hid', stmt', hs', hmem⟩
      · exact ⟨id, mem_insert_self id done, stmt, hs, hnodes ▸ hx⟩
    · exact ⟨id, mem_insert_self id done, stmt, hs, hnodes ▸ hf₁.self_mem_nodes her⟩
  · intro id' stmt' hid' hs'
    rw [PassMarks.counted_mark, Bool.or_eq_true, decide_eq_true_eq]
    rcases Finset.mem_insert.mp hid' with rfl | hid'
    · cases hs.symm.trans hs'
      exact .inr rfl
    · exact .inl (hscored.marks.kept (h.root hid' hs'))
  · intro id' hid'
    rcases Finset.mem_insert.mp hid' with rfl | hid'
    · intro st hst
      rw [hrun.stmt?] at hst
      cases hs₁.symm.trans hst
      exact hscored.idle hf₁ her
    · exact hrun.settled hf₁ (h.settled hid')
  · intro id' hid'
    rcases Finset.mem_insert.mp hid' with rfl | hid'
    · have hb := Database.bare_eq_of_unscored (Database.unscored_of_rescorings h.runs).1
      apply hf₁.treeScorable_congr hb.symm
      intro st hst
      cases hs₁.symm.trans hst
      exact hscored.scorable
    · exact h.scorable hid'

/-- A step tallies its statement. -/
theorem step_ok (h : Tallied db cfg done s) (hf : db.Forest) (hs : db.stmt? id = some stmt)
    (hstep : ScopeScore.step cfg s id = .ok s') :
    Tallied db cfg (Insert.insert id done) s' := by
  rw [h.step_eq hf hs] at hstep
  split at hstep <;> rename_i hid
  -- a statement that is met again adds nothing
  · cases hstep
    rwa [insert_eq_of_mem hid]
  · obtain ⟨⟨counts, marks, db₁⟩, hcompute, hstep⟩ := bind_eq_ok_iff.mp hstep
    obtain ⟨comb, hcomb, hstep⟩ := bind_eq_ok_iff.mp hstep
    obtain ⟨root, hr, hstep⟩ := bind_eq_ok_iff.mp hstep
    obtain ⟨stat, hstat, hstep⟩ := bind_eq_ok_iff.mp hstep
    cases hstep
    obtain ⟨hf₁, hs₁, -, -, hm⟩ := h.before hf hs hid
    exact h.insert hf hs hid (hf₁.scored_of_computeTree hs₁ hm hcompute) hcomb
      (db₁.expr_eq_ok_iff.mp hr) hstat

/-- A statement fails if its tree does, or if the tally leaves the range of counters. -/
theorem step_error (h : Tallied db cfg done s) (hf : db.Forest) (hs : db.stmt? id = some stmt)
    {fault : Fault} (hstep : ScopeScore.step cfg s id = .error fault) :
    s.db.Unscored cfg stmt.root fault ∨
      fault = .counterOverflow ∧
        ∃ col, UInt32.size ≤ ∑ id' ∈ Insert.insert id done, db.share cfg id' col := by
  rw [h.step_eq hf hs] at hstep
  split at hstep <;> rename_i hid
  · cases hstep
  · obtain ⟨hf₁, hs₁, -, hshare, hm⟩ := h.before hf hs hid
    obtain ⟨er, her, -⟩ := hf₁.root hs₁
    rcases bind_eq_error_iff.mp hstep with hcompute | ⟨⟨counts, marks, db₁⟩, hcompute, hstep⟩
    · exact .inl (hf₁.unscored_of_computeTree hs₁ hm hcompute)
    have hscored := hf₁.scored_of_computeTree hs₁ hm hcompute
    have hcounts := hscored.counts
    refine .inr ?_
    have hsum (col : Column) : ∑ id' ∈ Insert.insert id done, db.share cfg id' col =
        pointTally (s.db.treePoints cfg stmt.root) col + lineTally er stmt.lineExcluded col +
          s.statistic.tally col := by
      rw [sum_insert hid, ← h.tally col, ← hshare, Database.share_eq hs₁ her]
    -- either the sum of the points does not fit, or that of the lines
    rcases bind_eq_error_iff.mp hstep with hcomb | ⟨comb, -, hstep⟩
    · obtain ⟨rfl, hsize⟩ := Counter.add_three_error hcomb
      rw [hcounts.hit, hcounts.total, hcounts.excluded] at hsize
      refine ⟨rfl, ?_⟩
      rcases hsize with hsize | hsize | hsize
      · refine ⟨.combHit, ?_⟩
        rw [hsum]
        simp only [pointTally, lineTally, ScopeScore.statistic, Statistic.tally]
        omega
      · refine ⟨.combTotal, ?_⟩
        rw [hsum]
        simp only [pointTally, lineTally, ScopeScore.statistic, Statistic.tally]
        omega
      · refine ⟨.combExcluded, ?_⟩
        rw [hsum]
        simp only [pointTally, lineTally, ScopeScore.statistic, Statistic.tally]
        omega
    · obtain ⟨root, hr, hbare⟩ := Database.exists_expr?_of_bare hscored.bare her
      rw [db₁.expr_eq_ok_iff.mpr hr, ok_bind] at hstep
      rcases bind_eq_error_iff.mp hstep with hstat | ⟨stat, -, hstep⟩
      · obtain ⟨rfl, col, hsize⟩ := ScopeScore.countLine_error hstat
        refine ⟨rfl, col, ?_⟩
        rw [← lineTally_bare root, hbare, lineTally_bare] at hsize
        rw [hsum]
        omega
      · cases hstep

variable {stmts : List StmtId} (hex : ∀ id ∈ stmts, ∃ stmt, db.stmt? id = some stmt)

include hex

/-- What the step at each statement keeps, going through a list of them keeps. -/
theorem foldlM_induction {P : Finset StmtId → ScopeScore → Prop} (h : Tallied db cfg done s)
    (hf : db.Forest) (hp : P done s)
    (step : ∀ {done s id stmt s'}, Tallied db cfg done s → P done s → id ∈ stmts →
      db.stmt? id = some stmt → ScopeScore.step cfg s id = .ok s' → P (Insert.insert id done) s')
    (hfold : stmts.foldlM (ScopeScore.step cfg) s = .ok s') :
    Tallied db cfg (done ∪ stmts.toFinset) s' ∧ P (done ∪ stmts.toFinset) s' := by
  induction stmts generalizing done s with
  | nil =>
    cases hfold
    rw [List.toFinset_nil, union_empty]
    exact ⟨h, hp⟩
  | cons id stmts ih =>
    rw [List.forall_mem_cons] at hex
    obtain ⟨⟨stmt, hs⟩, hex⟩ := hex
    rw [List.foldlM_cons] at hfold
    obtain ⟨s₁, hstep, hfold⟩ := bind_eq_ok_iff.mp hfold
    have h₁ := ih hex (h.step_ok hf hs hstep) (step h hp List.mem_cons_self hs hstep)
      (fun h hp hid => step h hp (List.mem_cons_of_mem id hid)) hfold
    rwa [insert_union, ← union_insert, ← List.toFinset_cons] at h₁

/-- One step after the other tallies all statements. -/
theorem foldlM_ok (h : Tallied db cfg done s) (hf : db.Forest)
    (hfold : stmts.foldlM (ScopeScore.step cfg) s = .ok s') :
    Tallied db cfg (done ∪ stmts.toFinset) s' :=
  (h.foldlM_induction hex hf (P := fun _ _ => True) trivial (fun _ _ _ _ _ => trivial) hfold).1

/-- If all listed trees can be scored and the tally is in the range of counters, only underline ids
can run out, namely those of a listed tree. -/
theorem foldlM_error (h : Tallied db cfg done s) (hf : db.Forest)
    (hscorable : ∀ id ∈ stmts, db.TreeScorable cfg id)
    (hfit : ∀ col, ∑ id ∈ done ∪ stmts.toFinset, db.share cfg id col < UInt32.size)
    {fault : Fault} (hfold : stmts.foldlM (ScopeScore.step cfg) s = .error fault) :
    fault = .underlinesExhausted ∧ ∃ db₁, ReflTransGen (Database.Rescored cfg) db db₁ ∧
      ∃ id ∈ stmts, ∃ stmt, db.stmt? id = some stmt ∧ db₁.Crowded cfg stmt.root := by
  induction stmts generalizing done s with
  | nil => cases hfold
  | cons id stmts ih =>
    rw [List.forall_mem_cons] at hex hscorable
    obtain ⟨⟨stmt, hs⟩, hex⟩ := hex
    rw [List.foldlM_cons] at hfold
    rcases bind_eq_error_iff.mp hfold with hstep | ⟨s₁, hstep, hfold⟩
    · have hsub : Insert.insert id done ⊆ done ∪ (id :: stmts).toFinset := by
        rw [insert_subset_iff, List.toFinset_cons]
        exact ⟨mem_union_right _ (mem_insert_self _ _), subset_union_left⟩
      have hbelow (col : Column) :
          ∑ id' ∈ Insert.insert id done, db.share cfg id' col < UInt32.size :=
        Nat.lt_of_le_of_lt (sum_le_sum_of_subset hsub) (hfit col)
      rcases h.step_error hf hs hstep with htree | ⟨-, col, hsize⟩
      · by_cases hid : id ∈ done
        · rw [h.step_eq hf hs, if_pos hid] at hstep
          cases hstep
        · obtain ⟨hf₁, hs₁, -, hshare, -⟩ := h.before hf hs hid
          have hb := Database.bare_eq_of_unscored (Database.unscored_of_rescorings h.runs).1
          refine And.imp_right
            (fun hcrowded => ⟨s.db, h.runs, id, List.mem_cons_self, stmt, hs, hcrowded⟩)
            (htree.exhausted (hf.treeScorable_congr hb hscorable.1 stmt hs₁) ?_)
          have hle : db.share cfg id .combTotal ≤
              ∑ id' ∈ Insert.insert id done, db.share cfg id' .combTotal :=
            single_le_sum (f := fun id' => db.share cfg id' .combTotal)
              (fun _ _ => Nat.zero_le _) (mem_insert_self id done)
          have hlen : (s.db.treePoints cfg stmt.root).length ≤ s.db.share cfg id .combTotal :=
            hf₁.length_treePoints_le hs₁
          rw [hshare] at hlen
          exact Nat.lt_of_le_of_lt (hlen.trans hle) (hbelow .combTotal)
      · exact absurd (hbelow col) (Nat.not_lt.mpr hsize)
    · obtain ⟨hfault, db₁, hruns, id', hid', hcrowded⟩ :=
        ih hex (h.step_ok hf hs hstep) hscorable.2
          (by rwa [insert_union, ← union_insert, ← List.toFinset_cons]) hfold
      exact ⟨hfault, db₁, hruns, id', List.mem_cons_of_mem id hid', hcrowded⟩

end Tallied

/-! ## A recalculation -/

namespace Database

variable {db db' : Database} {cfg : ScoringConfig} {u : ScopeId} {scope : Scope}

/-- Caches a statistic. -/
def setStat (db : Database) (u : ScopeId) (stat : Statistic) : Database :=
  db.modifyScope u fun scope => { scope with stat }

/-- A recalculation goes through the statements of the scope with fresh marks, and keeps the sum. -/
theorem recalcScope_eq (hu : db.scope? u = some scope) :
    db.recalcScope u cfg = Checked.request (do
      let s ← scope.statements.foldlM (ScopeScore.step cfg)
        ⟨db, .new db.exprs.size, .zero, .zero⟩
      return (s.statistic, s.db.setStat u s.statistic)) := by
  rw [recalcScope_steps, hu]
  show (Checked.request _ >>= _) = _
  cases scope.statements.foldlM (ScopeScore.step cfg) ⟨db, .new db.exprs.size, .zero, .zero⟩ <;> rfl

/-- A recalculation returns if going through the listed statements does, with their statistic. -/
theorem recalcScope_ok_iff (hu : db.scope? u = some scope) {stat : Statistic} :
    db.recalcScope u cfg = .ok (stat, db') ↔
      ∃ s, scope.statements.foldlM (ScopeScore.step cfg) ⟨db, .new db.exprs.size, .zero, .zero⟩ =
        .ok s ∧ s.statistic = stat ∧ s.db.setStat u stat = db' := by
  rw [recalcScope_eq hu]
  cases scope.statements.foldlM (ScopeScore.step cfg) ⟨db, .new db.exprs.size, .zero, .zero⟩ with
  | error fault =>
    constructor
    · intro h
      cases h
    · rintro ⟨s, hs, -⟩
      cases hs
  | ok s =>
    constructor
    · intro h
      cases h
      exact ⟨s, rfl, rfl, rfl⟩
    · rintro ⟨_, ⟨⟩, rfl, rfl⟩
      rfl

/-- A recalculation scores trees of listed statements, and caches the tally of the scope. -/
structure Recalculated (db : Database) (cfg : ScoringConfig) (u : ScopeId) (scope : Scope)
    (stat : Statistic) (db' : Database) : Prop where
  runs : ∃ db₁, ReflTransGen (Rescored cfg) db db₁ ∧ db' = db₁.setStat u stat ∧
    ∀ id ∈ scope.statements, db₁.Settled cfg id
  tally : stat.tally = db.tallyOf cfg scope.statements
  scorable : ∀ id ∈ scope.statements, db.TreeScorable cfg id

/-- What a recalculation that succeeds has done. -/
theorem Forest.recalculated (hf : db.Forest) (hu : db.scope? u = some scope) {stat : Statistic}
    (h : db.recalcScope u cfg = .ok (stat, db')) : db.Recalculated cfg u scope stat db' := by
  obtain ⟨s, hfold, rfl, rfl⟩ := (recalcScope_ok_iff hu).mp h
  have hs := Tallied.foldlM_ok (fun id hid => hf.statement hu hid) (Tallied.start db cfg) hf hfold
  rw [empty_union] at hs
  refine ⟨⟨s.db, hs.runs, rfl, ?_⟩, funext hs.tally, ?_⟩
  · exact fun id hid => hs.settled (List.mem_toFinset.mpr hid)
  · exact fun id hid => hs.scorable (List.mem_toFinset.mpr hid)

/-- If the listed trees can be scored and the tally is in the range of counters, only underline ids
can run out. -/
theorem Forest.recalcScope_error (hf : db.Forest) (hu : db.scope? u = some scope)
    (hscorable : ∀ id ∈ scope.statements, db.TreeScorable cfg id)
    (hfit : ∀ col, db.tallyOf cfg scope.statements col < UInt32.size) {refusal : Refusal}
    (h : db.recalcScope u cfg = .error refusal) :
    refusal = .fault .underlinesExhausted ∧ ¬ ∀ id ∈ scope.statements, db.Settled cfg id := by
  rw [recalcScope_eq hu] at h
  cases hfold : scope.statements.foldlM (ScopeScore.step cfg)
      ⟨db, .new db.exprs.size, .zero, .zero⟩ with
  | ok s =>
    rw [hfold] at h
    cases h
  | error fault =>
    rw [hfold] at h
    cases h
    obtain ⟨rfl, db₁, hruns, id, hid, stmt, hs, hcrowded⟩ :=
      Tallied.foldlM_error (fun id hid => hf.statement hu hid) (Tallied.start db cfg) hf hscorable
        (by simpa only [empty_union, tallyOf] using hfit) hfold
    refine ⟨rfl, fun hsettled => ?_⟩
    have hidle : db₁.Settled cfg id :=
      rescorings_induction hruns hf (fun hf hstep => hstep.settled hf) (hsettled id hid)
    refine (hidle stmt ?_).not_crowded hcrowded
    rwa [stmt?_eq_of_unscored (unscored_of_rescorings hruns).1]

end Database

end LogicCoverage
