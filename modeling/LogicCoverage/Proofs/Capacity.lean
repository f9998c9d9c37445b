import LogicCoverage.Proofs.Ledger
import LogicCoverage.Proofs.Scorability
import LogicCoverage.Proofs.Snapshot

/-!
# When a pass succeeds

A pass over all scopes needs trees that can be scored, tallies within the range of counters, and room
for the numbers that are yet to be given. Scoring a tree leaves the room of the others alone, so
that it suffices to look at the database before the pass. The main statement is about snapshots:
what a pass needs of them beyond what is checked when they are read.
-/

namespace LogicCoverage

open Relation Finset

namespace Database

variable {db db' : Database} {cfg : ScoringConfig} {root : ExprId} {er : Expression} {stmt : StmtId}

/-! ## Room for numbers -/

/-- A node that awaits a number is the site of a point. -/
theorem length_awaiting_le (hf : db.Forest) (h : db.expr? root = some er) :
    (db.awaiting cfg root).length ≤ (db.treePoints cfg root).length := by
  rw [← List.length_map Point.site]
  refine (List.subperm_of_subset ((hf.nodup_nodes h).filter _) fun x hx => ?_).length_le
  obtain ⟨-, -, n, hn, -, hsite⟩ := (mem_awaiting hf h).mp hx
  obtain ⟨p, hp, rfl⟩ := List.mem_map.mp hsite
  exact List.mem_map_of_mem (mem_treePoints.mpr ⟨n, hn, hp⟩)

/-- Whether there is room depends on the nodes of the tree. -/
theorem Forest.crowded_congr (hf : db.Forest) (h : db.expr? root = some er)
    (hb : db'.bare = db.bare) (hm : ∀ x ∈ db.nodes root, db'.muted x = db.muted x)
    (hn : ∀ x ∈ db.nodes root, db'.number? x = db.number? x) :
    db'.Crowded cfg root ↔ db.Crowded cfg root := by
  have hnodes : db'.nodes root = db.nodes root := nodes_congr hb root
  have hhighest : Underlining.highest db' (db'.nodes root) =
      Underlining.highest db (db.nodes root) := by
    rw [hnodes, Underlining.highest_congr hn]
  have hpoints : ∀ n ∈ db.nodes root, db'.points cfg n = db.points cfg n := by
    intro n hmem
    obtain ⟨en, hen⟩ := hf.expr?_of_mem_nodes h hmem
    exact hf.points_congr hen hb fun x hx => hm x (hf.nodes_trans h hmem hx)
  have hawaiting : db'.awaiting cfg root = db.awaiting cfg root := by
    rw [awaiting, awaiting, hnodes]
    refine List.filter_congr fun x hx => ?_
    have hany : ((db.nodes root).any fun n =>
        (db'.points cfg n).any Point.missing && (db'.sites cfg n).contains x) =
        (db.nodes root).any fun n =>
          (db.points cfg n).any Point.missing && (db.sites cfg n).contains x := by
      rw [Bool.eq_iff_iff, List.any_eq_true, List.any_eq_true]
      refine exists_congr fun n => and_congr_right fun hmem => ?_
      rw [sites, sites, hpoints n hmem]
    rw [awaits, awaits, hm x hx, hn x hx, hnodes, hany]
  rw [Crowded, Crowded, hhighest, hawaiting]

/-- There are enough numbers for the tree of the statement. -/
def Roomy (db : Database) (cfg : ScoringConfig) (stmt : StmtId) : Prop :=
  ∀ st, db.stmt? stmt = some st → ¬ db.Crowded cfg st.root

/-- A tree that is scored becomes idle, and the others keep their numbers. -/
theorem Rescored.roomy (h : Rescored cfg db db') (hf : db.Forest) (hroom : db.Roomy cfg stmt) :
    db'.Roomy cfg stmt := by
  intro st hs
  rw [h.stmt?] at hs
  obtain ⟨er, her, -⟩ := hf.root hs
  have hmuted := h.muted hf
  obtain ⟨stmt₀, st₀, marks, counts, marks', hs₀, hscored⟩ := h
  obtain ⟨er₀, her₀, -⟩ := hf.root hs₀
  by_cases heq : stmt = stmt₀
  · subst heq
    cases hs.symm.trans hs₀
    exact (hscored.idle hf her₀).not_crowded
  · rw [hf.crowded_congr her hscored.bare fun x _ => congrFun hmuted x]
    · exact hroom st hs
    · intro x hx
      exact hscored.number?_of_notMem hf her₀ fun hx₀ =>
        heq (hf.stmt_eq_of_mem_nodes hs hs₀ hx hx₀)

theorem SameNodes.roomy (h : db.SameNodes db') (hf : db.Forest) (hroom : db.Roomy cfg stmt) :
    db'.Roomy cfg stmt := by
  intro st' hs'
  obtain ⟨st, hs, hbare⟩ := exists_stmt?_of_bare h.bare.symm hs'
  obtain ⟨er, her, -⟩ := hf.root hs
  rw [← Statement.root_eq_of_bare hbare, hf.crowded_congr her h.bare
    (fun x _ => congrFun (h.muted hf) x) fun x _ => h.number? x]
  exact hroom st hs

/-- Small numbers and few points leave room. -/
theorem Forest.roomy (hf : db.Forest)
    (hnumbers : ∀ e ∈ db.exprs, ∀ n ∈ e.underline, n.toNat < 2 ^ 31)
    (hpoints : db.share cfg stmt .combTotal < 2 ^ 31) : db.Roomy cfg stmt := by
  intro st hs hcrowded
  obtain ⟨er, her, -⟩ := hf.root hs
  have hhighest : (Underlining.highest db (db.nodes st.root)).toNat < 2 ^ 31 := by
    have hmem : Underlining.highest db (db.nodes st.root) = 0 ∨ ∃ x ∈ db.nodes st.root,
        db.number? x = some (Underlining.highest db (db.nodes st.root)) :=
      Underlining.highest_mem (db.nodes st.root)
    rcases hmem with hzero | ⟨x, -, hx⟩
    · rw [hzero]
      decide
    · obtain ⟨e, he, hnumber⟩ := Option.bind_eq_some_iff.mp hx
      exact hnumbers e (Array.mem_of_getElem? he) _ hnumber
  have hawaiting : (db.awaiting cfg st.root).length < 2 ^ 31 :=
    calc (db.awaiting cfg st.root).length
      _ ≤ (db.treePoints cfg st.root).length := length_awaiting_le hf her
      _ ≤ db.share cfg stmt .combTotal := hf.length_treePoints_le hs
      _ < 2 ^ 31 := hpoints
  rw [Crowded, UInt32.size] at hcrowded
  omega

/-- Going through statements succeeds if their trees can be scored, counters hold their tally, and
there is room for the numbers of each tree. -/
theorem Forest.exists_foldlM_step (hf : db.Forest) {stmts : List StmtId}
    (hex : ∀ id ∈ stmts, ∃ st, db.stmt? id = some st)
    (hscorable : ∀ id ∈ stmts, db.TreeScorable cfg id)
    (hfits : ∀ col, db.tallyOf cfg stmts col < UInt32.size)
    (hroomy : ∀ id ∈ stmts, db.Roomy cfg id) :
    ∃ s, stmts.foldlM (ScopeScore.step cfg) ⟨db, .new db.exprs.size, .zero, .zero⟩ = .ok s := by
  cases hfold : stmts.foldlM (ScopeScore.step cfg) ⟨db, .new db.exprs.size, .zero, .zero⟩ with
  | ok s => exact ⟨s, rfl⟩
  | error fault =>
    obtain ⟨-, db₁, hruns, id, hid, st, hs, hcrowded⟩ :=
      Tallied.foldlM_error hex (Tallied.start db cfg) hf hscorable
        (by simpa only [empty_union, tallyOf] using hfits) hfold
    have hroom : db₁.Roomy cfg id :=
      rescorings_induction hruns hf (fun hf hstep => hstep.roomy hf) (hroomy id hid)
    refine absurd hcrowded (hroom st ?_)
    rwa [stmt?_eq_of_unscored (unscored_of_rescorings hruns).1]

/-! ## Passes -/

/-- What a pass needs: of the listed statements, trees that can be scored and room for their
numbers; and tallies that counters can hold. -/
structure Feasible (db : Database) (cfg : ScoringConfig) : Prop where
  scorable {u : ScopeId} {scope : Scope} : db.scope? u = some scope →
    ∀ id ∈ scope.statements, db.TreeScorable cfg id
  fits {u : ScopeId} {scope : Scope} : db.scope? u = some scope →
    ∀ col, db.tallyOf cfg scope.statements col < UInt32.size
  roomy {u : ScopeId} {scope : Scope} : db.scope? u = some scope →
    ∀ id ∈ scope.statements, db.Roomy cfg id

/-- Where nothing is lacking and numbers are small, few points make a pass feasible. -/
theorem Recorded.feasible (hd : db.Recorded) (hf : db.Forest)
    (hnumbers : ∀ e ∈ db.exprs, ∀ n ∈ e.underline, n.toNat < 2 ^ 31)
    (hpoints : db.tallyOf cfg db.stmtIds .combTotal < 2 ^ 31)
    (hlines : db.tallyOf cfg db.stmtIds .lineTotal < 2 ^ 31) : db.Feasible cfg := by
  have hmem {u : ScopeId} {scope : Scope} (hu : db.scope? u = some scope) {id : StmtId}
      (hid : id ∈ scope.statements) : id ∈ db.stmtIds := by
    obtain ⟨st, hs⟩ := hf.statement hu hid
    exact mem_stmtIds hs
  have hsub {u : ScopeId} {scope : Scope} (hu : db.scope? u = some scope) (col : Column) :
      db.tallyOf cfg scope.statements col ≤ db.tallyOf cfg db.stmtIds col :=
    sum_le_sum_of_subset fun id hid =>
      List.mem_toFinset.mpr (hmem hu (List.mem_toFinset.mp hid))
  refine ⟨fun hu id hid st hs n hn => ?_, fun {u scope} hu col => ?_, fun hu id hid => ?_⟩
  · obtain ⟨er, her, -⟩ := hf.root hs
    obtain ⟨e, he⟩ := hf.expr?_of_mem_nodes her hn
    exact hd.scorable hf he cfg
  · have hcomb := (hsub hu .combTotal).trans_lt hpoints
    have hline := (hsub hu .lineTotal).trans_lt hlines
    rw [UInt32.size]
    have hordered : Ordered (db.tallyOf cfg scope.statements) := tallyOf_ordered scope.statements
    rcases hordered.le_total col with hle | hle <;> omega
  · exact hf.roomy hnumbers ((share_le_tallyOf (hmem hu hid) .combTotal).trans_lt hpoints)

namespace Feasible

variable (h : db.Feasible cfg) (hf : db.Forest) {u : ScopeId} {scope : Scope}

include h hf

theorem exists_recalcScope (hu : db.scope? u = some scope) :
    ∃ result, db.recalcScope u cfg = .ok result := by
  obtain ⟨s, hfold⟩ := hf.exists_foldlM_step (fun id hid => hf.statement hu hid) (h.scorable hu)
    (h.fits hu) (h.roomy hu)
  exact ⟨_, (recalcScope_ok_iff hu).mpr ⟨s, hfold, rfl, rfl⟩⟩

/-- A recalculation leaves what a pass needs. -/
theorem recalculation (hrun : Recalculation cfg db db') : db'.Feasible cfg := by
  have hunscored := hrun.unscored
  have hb := bare_eq_of_unscored hunscored
  have hscope {v : ScopeId} {scope' : Scope} (hv' : db'.scope? v = some scope') :
      ∃ scope, db.scope? v = some scope ∧ scope.statements = scope'.statements := by
    obtain ⟨scope, hv, hun⟩ := exists_scope?_of_bare hb.symm hv'
    exact ⟨scope, hv, Scope.statements_eq_of_unscored hun⟩
  refine ⟨fun {v scope'} hv' id hid => ?_, fun {v scope'} hv' col => ?_,
    fun {v scope'} hv' id hid => ?_⟩
  · obtain ⟨scope, hv, hstmts⟩ := hscope hv'
    exact hf.treeScorable_congr hb (h.scorable hv id (hstmts ▸ hid))
  · obtain ⟨scope, hv, hstmts⟩ := hscope hv'
    rw [← hstmts, tallyOf, hf.share_eq_of_unscored hunscored]
    exact h.fits hv col
  · obtain ⟨scope, hv, hstmts⟩ := hscope hv'
    obtain ⟨w, scope₀, stat, hw, hrec⟩ := hrun
    obtain ⟨db₁, hruns, hnodes, -⟩ := hrec.rescorings
    refine hnodes.roomy (hf.congr (bare_eq_of_unscored (unscored_of_rescorings hruns).1)) ?_
    exact rescorings_induction hruns hf (fun hf hstep => hstep.roomy hf)
      (h.roomy hv id (hstmts ▸ hid))

end Feasible

end Database

namespace Engine

open Database

variable {db : Database} {cfg : ScoringConfig} {ids : List ScopeId}

theorem exists_foldlM_scoreScope (h : db.Feasible cfg) (hf : db.Forest)
    (hex : ∀ u ∈ ids, ∃ scope, db.scope? u = some scope) (stats : List (ScopeId × Statistic)) :
    ∃ result, ids.foldlM (scoreScope cfg) (stats, db) = .ok result := by
  induction ids generalizing stats db with
  | nil => exact ⟨_, rfl⟩
  | cons u ids ih =>
    rw [List.forall_mem_cons] at hex
    obtain ⟨⟨scope, hu⟩, hex⟩ := hex
    obtain ⟨⟨stat, db₁⟩, hrecalc⟩ := h.exists_recalcScope hf hu
    have hrec := hf.recalculated hu hrecalc
    obtain ⟨result, hresult⟩ := ih (h.recalculation hf ⟨u, scope, stat, hu, hrec⟩)
      (hf.congr hrec.bare) (fun v hv => exists_scope?_congr hrec.bare (hex v hv))
      (stats ++ [(u, stat)])
    refine ⟨result, ?_⟩
    rw [List.foldlM_cons, scoreScope, hrecalc]
    exact hresult

/-- A pass that resets no numbers succeeds on a feasible database. -/
theorem exists_scoreAll {engine : Engine} (hfresh : engine.isOutdated = false)
    (h : db.Feasible engine.config) (hf : db.Forest) :
    ∃ result, engine.scoreAll db = .ok result := by
  obtain ⟨⟨stats, db'⟩, hpass⟩ :=
    exists_foldlM_scoreScope h hf (fun u hu => exists_scope?_of_mem hu) []
  exact ⟨_, by rw [scoreAll_of_not_isOutdated hfresh, hpass]; rfl⟩

/-! ## Snapshots -/

/-- A snapshot that can be read can be scored if gates and comparisons have both children, wide nodes
have a history, the masks of these have all their words, the numbers in it are below `2 ^ 31`, and
so are the points and the lines that there are. -/
theorem scoreAll_of_read {text : String} {db : Database} (hread : Snapshot.read text = .ok db)
    (cfg : ScoringConfig) (hd : db.Recorded)
    (hnumbers : ∀ e ∈ db.exprs, ∀ n ∈ e.underline, n.toNat < 2 ^ 31)
    (hpoints : db.tallyOf cfg db.stmtIds .combTotal < 2 ^ 31)
    (hlines : db.tallyOf cfg db.stmtIds .lineTotal < 2 ^ 31) :
    ∃ stats db', (new cfg).scoreAll db = .ok (stats, ⟨cfg, some cfg⟩, db') := by
  have hf := forest_of_check (Snapshot.read_eq_ok_iff.mp hread).2
  obtain ⟨⟨stats, engine, db'⟩, hpass⟩ :=
    exists_scoreAll (show (new cfg).isOutdated = false from rfl)
      (hd.feasible hf hnumbers hpoints hlines) hf
  obtain ⟨hengine, -⟩ := scoreAll_ok hf hpass
  exact ⟨stats, db', by rw [hpass, hengine]; rfl⟩

/-- One statement: a signal of two bits that has a number, with the given words in its masks. -/
def wideSignal (words : Array UInt64) : Database where
  exprs := #[
    { Expression.new .signal 2 7 with
      parent := .stmt ⟨0⟩, underline := some 4,
      history := some ⟨⟨2, words⟩, ⟨2, words⟩, ⟨2, words⟩, ⟨2, words⟩, ⟨2, words⟩, ⟨2, words⟩⟩ }]
  stmts := #[⟨⟨0⟩, false⟩]
  scopes := #[⟨"top", .moduleScope, [⟨0⟩], [], .zero⟩]

theorem scoreAll_of_read_wideSignal :
    Snapshot.read (Snapshot.write (wideSignal #[1])) = .ok (wideSignal #[1]) ∧
      (wideSignal #[1]).Recorded ∧
      (∀ e ∈ (wideSignal #[1]).exprs, ∀ n ∈ e.underline, n.toNat < 2 ^ 31) ∧
      (wideSignal #[1]).tallyOf ⟨true, true, none⟩ (wideSignal #[1]).stmtIds .combTotal < 2 ^ 31 ∧
      (wideSignal #[1]).tallyOf ⟨true, true, none⟩ (wideSignal #[1]).stmtIds .lineTotal < 2 ^ 31 ∧
      ∃ stats db', (new ⟨true, true, none⟩).scoreAll (wideSignal #[1]) =
        .ok (stats, ⟨⟨true, true, none⟩, some ⟨true, true, none⟩⟩, db') := by
  have hread : Snapshot.read (Snapshot.write (wideSignal #[1])) = .ok (wideSignal #[1]) :=
    Snapshot.read_eq_ok_iff.mpr ⟨Snapshot.parse?_write _, by decide⟩
  have hd : (wideSignal #[1]).Recorded := ⟨by decide, by decide⟩
  have hnumbers : ∀ e ∈ (wideSignal #[1]).exprs, ∀ n ∈ e.underline, n.toNat < 2 ^ 31 := by
    intro e he n hn
    cases Array.mem_singleton.mp he
    cases Option.mem_some.mp hn
    decide
  have hpoints : (wideSignal #[1]).tallyOf ⟨true, true, none⟩ (wideSignal #[1]).stmtIds .combTotal <
      2 ^ 31 := by decide +kernel
  have hlines : (wideSignal #[1]).tallyOf ⟨true, true, none⟩ (wideSignal #[1]).stmtIds .lineTotal <
      2 ^ 31 := by decide +kernel
  exact ⟨hread, hd, hnumbers, hpoints, hlines,
    scoreAll_of_read hread ⟨true, true, none⟩ hd hnumbers hpoints hlines⟩

/-- One statement: an edge that fired, with the given number. -/
def firedEdge (number : UInt32) : Database where
  exprs := #[
    { Expression.new .posEdge 1 7 with
      parent := .stmt ⟨0⟩, wasTrue := true, underline := some number }]
  stmts := #[⟨⟨0⟩, false⟩]
  scopes := #[⟨"top", .moduleScope, [⟨0⟩], [], .zero⟩]

/-- Reading a snapshot checks neither the words of masks nor numbers: a pass looks for a word that is
not there, and adds to the highest number that there is although nothing is missing. -/
theorem scoreAll_faults_on_read :
    (Snapshot.read (Snapshot.write (wideSignal #[])) = .ok (wideSignal #[]) ∧
      (∀ e ∈ (wideSignal #[]).exprs, e.IsSupplied) ∧
      (wideSignal #[]).tallyOf ⟨true, true, none⟩ (wideSignal #[]).stmtIds .combTotal < 2 ^ 31 ∧
      (wideSignal #[]).tallyOf ⟨true, true, none⟩ (wideSignal #[]).stmtIds .lineTotal < 2 ^ 31 ∧
      (new ⟨true, true, none⟩).scoreAll (wideSignal #[]) = .error (.fault (.noSuchWord 0 0))) ∧
    Snapshot.read (Snapshot.write (firedEdge 4294967295)) = .ok (firedEdge 4294967295) ∧
      (∀ e ∈ (firedEdge 4294967295).exprs, e.IsSupplied) ∧
      (firedEdge 4294967295).tallyOf .default (firedEdge 4294967295).stmtIds .combTotal < 2 ^ 31 ∧
      (firedEdge 4294967295).tallyOf .default (firedEdge 4294967295).stmtIds .lineTotal < 2 ^ 31 ∧
      (new .default).scoreAll (firedEdge 4294967295) = .error (.fault .underlinesExhausted) := by
  have hread {db : Database} (h : db.check = .ok ()) :
      Snapshot.read (Snapshot.write db) = .ok db :=
    Snapshot.read_eq_ok_iff.mpr ⟨Snapshot.parse?_write db, h⟩
  exact ⟨⟨hread (by decide), by decide, by decide +kernel, by decide +kernel, by decide +kernel⟩,
    hread (by decide), by decide, by decide +kernel, by decide +kernel, by decide +kernel⟩

end Engine

end LogicCoverage
