import LogicCoverage.Command.Run
import LogicCoverage.Proofs.Consistency
import LogicCoverage.Proofs.Ledger
import LogicCoverage.Proofs.Roots
import LogicCoverage.Proofs.Snapshot

/-!
# Detailed reports

A detailed report says three times what is missing: in the line of a scope, in the line of a
statement root, and in the rows below. `Row.PrintedAs`, `RootPrintedAs` and `ScopePrintedAs` tell
letter by letter what is printed and how the numbers in it agree. The main statement is that the text
of a report consists of such lines, and that a report meets no fault once all scopes have been
scored.
-/

namespace LogicCoverage

open Database

/-! ## What is printed -/

/-- The line of a row, as in `    [3] e12: event never occurred`. It is labelled with the number of
the node that is underlined. -/
def Row.PrintedAs (row : Row) (line : String) : Prop :=
  ∃ n : UInt32, row.underline = some n ∧
    line = "    [" ++ n.toNat.repr ++ "] e" ++ row.site.index.toNat.repr ++ ": " ++ row.describe

namespace Database

/-- The lines of a statement root: one such as `  line 7 e2: 1/3` with its counts, and below it the
rows of its statement. The counts leave as many points as there are rows, and no row is labelled
with a dash. -/
def RootPrintedAs (db : Database) (cfg : ScoringConfig) (root : RootSummary)
    (lines : List String) : Prop :=
  ∃ stmt rows below,
    db.statementOf root.expr = .ok (some stmt) ∧ db.statementDetail stmt cfg = .ok rows ∧
    lines = ("  line " ++ root.line.toNat.repr ++ " e" ++ root.expr.index.toNat.repr ++ ": " ++
      root.counts.hit.toNat.repr ++ "/" ++ root.counts.total.toNat.repr) :: below ∧
    List.Forall₂ Row.PrintedAs rows below ∧
    root.counts.hit.toNat + below.length = root.counts.total.toNat ∧
    ∀ line ∈ below, ¬ "    [-]".toList <+: line.toList

/-- The lines of a scope: one with its statistic, and below it the lines of its uncovered roots, each
of which is there once. The number that is said to be missing, and that its hits leave, is the number
of rows below. -/
def ScopePrintedAs (db : Database) (cfg : ScoringConfig) (u : ScopeId) (lines : List String) :
    Prop :=
  ∃ (scope : Scope) (missing : Nat) (lists : RootLists) (blocks : List (List String)),
    db.scope? u = some scope ∧ db.collectRoots u cfg = .ok lists ∧
    lines = (scope.name ++ " (" ++ scope.kind.name ++ "): comb " ++
      scope.stat.combHit.toNat.repr ++ "/" ++ scope.stat.combTotal.toNat.repr ++ " (" ++
      Decimal.onePlace scope.stat.percentComb ++ "%, " ++ missing.repr ++ " missing, " ++
      scope.stat.combExcluded.toNat.repr ++ " excluded), line " ++
      scope.stat.lineHit.toNat.repr ++ "/" ++ scope.stat.lineTotal.toNat.repr ++ " (" ++
      Decimal.onePlace scope.stat.percentLine ++ "%)") :: blocks.flatten ∧
    scope.stat.combHit.toNat + missing = scope.stat.combTotal.toNat ∧
    List.Forall₂ (db.RootPrintedAs cfg) lists.uncovered blocks ∧
    (blocks.flatMap List.tail).length = missing ∧
    (lists.uncovered.map RootSummary.expr).Nodup

end Database

/-- A number is not printed as a dash. -/
theorem Row.PrintedAs.not_dash {row : Row} {line : String} (h : row.PrintedAs line) :
    ¬ "    [-]".toList <+: line.toList := by
  obtain ⟨n, -, rfl⟩ := h
  intro hdash
  cases hdigits : Nat.toDigits 10 n.toNat with
  | nil => exact absurd hdigits Nat.toDigits_ne_nil
  | cons c digits =>
    have hc : c.isDigit = true := Nat.isDigit_of_mem_toDigits (by decide) (by decide)
      (hdigits ▸ List.mem_cons_self)
    simp [Nat.repr, hdigits] at hdash
    cases hdash.1 ▸ hc

/-- A row with a number is printed with it in front. -/
theorem Row.printedAs_line {row : Row} {n : UInt32} (h : row.underline = some n) :
    row.PrintedAs row.line := by
  refine ⟨n, h, ?_⟩
  rw [line, label, h, ExprId.text, ← String.toList_inj]
  simp

/-! ## The report on a scope -/

namespace Database

variable {db : Database} {cfg : ScoringConfig} {u : ScopeId} {scope : Scope}

/-- A root with the rows of its tree. -/
def rootReport (db : Database) (cfg : ScoringConfig) (root : RootSummary) : RootReport :=
  ⟨root, db.treeGaps cfg root.expr⟩

namespace Summarizes

variable {id : StmtId} {root : RootSummary} (h : db.Summarizes cfg id root) (hf : db.Forest)

include h hf

/-- The statement of a root that was summarized is found from the root. -/
theorem statementOf_eq : db.statementOf root.expr = .ok (some id) := by
  obtain ⟨st, hs, hroot⟩ := h.stmt
  obtain ⟨er, her, -⟩ := hf.root hs
  rw [← hroot]
  exact hf.statementOf_of_mem hs (hf.self_mem_nodes her)

/-- The rows of a statement are the gaps of its tree. -/
theorem statementDetail_eq : db.statementDetail id cfg = .ok (db.treeGaps cfg root.expr) := by
  obtain ⟨st, hs, hroot⟩ := h.stmt
  rw [hf.statementDetail_eq hs (hroot ▸ h.scorable), hroot]

/-- An uncovered root is reported with its rows. -/
theorem ofRoot_eq : ScopeReport.ofRoot db cfg root = .ok (db.rootReport cfg root) := by
  rw [ScopeReport.ofRoot, h.statementOf_eq hf, ok_bind]
  dsimp only
  rw [h.statementDetail_eq hf]
  rfl

/-- The printed counts of a root agree with its rows once these are numbered. -/
theorem printedAs (hnumber : ∀ row ∈ db.treeGaps cfg root.expr, row.underline ≠ none) :
    db.RootPrintedAs cfg root (db.rootReport cfg root).lines := by
  have hprinted {row : Row} (hrow : row ∈ db.treeGaps cfg root.expr) :
      row.PrintedAs row.line := by
    obtain ⟨n, hn⟩ := Option.ne_none_iff_exists'.mp (hnumber row hrow)
    exact Row.printedAs_line hn
  have hle : root.counts.hit.toNat ≤ root.counts.total.toNat := by
    rw [h.counts.hit, h.counts.total]
    exact List.countP_le_length
  refine ⟨id, db.treeGaps cfg root.expr, (db.treeGaps cfg root.expr).map Row.line,
    h.statementOf_eq hf, h.statementDetail_eq hf, ?_, ?_, ?_, ?_⟩
  · rw [RootReport.lines, RootReport.line, ExprId.text, shareText, List.cons.injEq,
      ← String.toList_inj]
    simp [rootReport]
  · rw [List.forall₂_map_right_iff, List.forall₂_same]
    exact fun row => hprinted
  · rw [List.length_map, h.length_treeGaps]
    omega
  · intro line hline
    obtain ⟨row, hrow, rfl⟩ := List.mem_map.mp hline
    exact (hprinted hrow).not_dash

end Summarizes

/-- What an exact statistic misses is what its total has more than its hits. -/
theorem Exact.combMissed_eq (h : db.Exact cfg u) (hu : db.scope? u = some scope) :
    ∃ missed, scope.stat.combMissed = .ok missed ∧
      scope.stat.combHit.toNat + missed.toNat = scope.stat.combTotal.toNat := by
  have hle : scope.stat.combHit.toNat ≤ scope.stat.combTotal.toNat := (h.ordered hu).combHit_le
  have hsub := UInt32.toNat_sub_of_le scope.stat.combTotal scope.stat.combHit hle
  refine ⟨scope.stat.combTotal - scope.stat.combHit, Counter.sub_eq_ok_iff.mpr ?_, ?_⟩ <;>
    rw [hsub] <;> omega

/-- The report on a current scope comes about, and is printed as it should be. -/
theorem Current.ofScope_eq (h : db.Current cfg u) (hf : db.Forest) (hu : db.scope? u = some scope) :
    ∃ r, ScopeReport.ofScope db cfg true u = .ok r ∧ db.ScopePrintedAs cfg u r.lines := by
  obtain ⟨missed, hmissed, hbalance⟩ := h.exact.combMissed_eq hu
  obtain ⟨roots, hroots, hcollect⟩ := h.collectRoots_eq hf hu
  have huncovered {root : RootSummary} (hroot : root ∈ (RootLists.ofRoots roots).uncovered) :
      ∃ id ∈ scope.statements, db.Summarizes cfg id root := by
    obtain ⟨id, hid, hsum⟩ := exists_of_mem_roots hroots (List.mem_of_mem_filter hroot)
    exact ⟨id, List.mem_eraseDups.mp hid, hsum⟩
  have hreports : (RootLists.ofRoots roots).uncovered.mapM (ScopeReport.ofRoot db cfg) =
      .ok ((RootLists.ofRoots roots).uncovered.map (db.rootReport cfg)) := by
    apply mapM_eq_ok_map
    intro root hroot
    obtain ⟨id, -, hsum⟩ := huncovered hroot
    exact hsum.ofRoot_eq hf
  refine ⟨⟨scope.name, scope.kind, scope.stat, missed,
    (RootLists.ofRoots roots).uncovered.map (db.rootReport cfg)⟩, ?_, scope, missed.toNat, _,
    (RootLists.ofRoots roots).uncovered.map fun root => (db.rootReport cfg root).lines, hu,
    hcollect, ?_, hbalance, ?_, ?_, ?_⟩
  · simp only [ScopeReport.ofScope, db.scope_eq_ok_iff.mpr hu, hmissed, hcollect, hreports,
      Checked.request, Except.mapError, ok_bind, if_true]
    rfl
  -- the line of the scope, letter by letter
  · rw [ScopeReport.lines, List.flatMap_map, List.flatMap_def, ScopeReport.line, shareText,
      shareText, List.cons.injEq, ← String.toList_inj]
    simp
  · rw [List.forall₂_map_right_iff, List.forall₂_same]
    intro root hroot
    obtain ⟨id, hid, hsum⟩ := huncovered hroot
    obtain ⟨st, hs, hst⟩ := hsum.stmt
    obtain ⟨er, her, -⟩ := hsum.expr
    have hidle := h.settled hu id hid st hs
    rw [hst] at hidle
    exact hsum.printedAs hf fun row hrow => (hidle.number?_of_mem hf her hrow).2.1
  -- what the roots miss adds up to what the scope misses
  · have hlen {root : RootSummary} (hroot : root ∈ (RootLists.ofRoots roots).uncovered) :
        (db.rootReport cfg root).lines.tail.length =
          root.counts.total.toNat - root.counts.hit.toNat := by
      obtain ⟨id, -, hsum⟩ := huncovered hroot
      rw [RootReport.lines, List.tail_cons, List.length_map]
      exact hsum.length_treeGaps
    rw [List.length_flatMap, List.map_map]
    show (List.map (fun root => (db.rootReport cfg root).lines.tail.length) _).sum = missed.toNat
    rw [List.map_congr_left fun root hroot => hlen hroot, RootLists.sum_uncovered,
      hf.sum_missing hroots, ← h.exact.tally hu]
    show scope.stat.combTotal.toNat - scope.stat.combHit.toNat = missed.toNat
    omega
  · exact (hf.nodup_roots hroots (Underlining.nodup_eraseDups _)).sublist
      (List.filter_sublist.map RootSummary.expr)

/-! ## The whole report -/

/-- The scope that is found has the name. -/
theorem findScope?_eq_some {name : String} (h : db.findScope? name = some u) :
    ∃ scope, db.scope? u = some scope ∧ scope.name = name := by
  have hname := List.find?_some h
  obtain ⟨scope, hu⟩ := exists_scope?_of_mem (List.mem_of_find?_eq_some h)
  rw [hu, Option.any_some, beq_iff_eq] at hname
  exact ⟨scope, hu, hname⟩

/-- If none is found, no scope has the name. -/
theorem findScope?_eq_none {name : String} (h : db.findScope? name = none) {u : ScopeId}
    {scope : Scope} (hu : db.scope? u = some scope) : scope.name ≠ name := by
  have hname := List.find?_eq_none.mp h u (mem_scopeIds hu)
  rw [hu, Option.any_some, beq_iff_eq] at hname
  exact hname

/-- A scope that is reported on: the first of the wanted name or, if none is wanted, any instance or
any other scope, as the settings say. -/
def Chosen (db : Database) (perInstance : Bool) : Option String → ScopeId → Prop
  | some wanted, u => db.findScope? wanted = some u
  | none, u => ∃ scope, db.scope? u = some scope ∧
      (scope.kind = .instanceScope ↔ perInstance = true)

theorem Chosen.exists_scope {perInstance : Bool} {name : Option String}
    (h : db.Chosen perInstance name u) : ∃ scope, db.scope? u = some scope := by
  cases name with
  | none =>
    obtain ⟨scope, hu, -⟩ := h
    exact ⟨scope, hu⟩
  | some wanted =>
    obtain ⟨scope, hu, -⟩ := findScope?_eq_some h
    exact ⟨scope, hu⟩

/-- The scopes that are reported on by default are the chosen ones. -/
theorem mem_reportedScopes {perInstance : Bool} :
    u ∈ db.reportedScopes perInstance ↔ db.Chosen perInstance none u := by
  rw [reportedScopes, List.mem_filter, Chosen]
  constructor
  · rintro ⟨hmem, hkind⟩
    obtain ⟨scope, hu⟩ := exists_scope?_of_mem hmem
    rw [hu, Option.any_some, beq_iff_eq, Bool.eq_iff_iff, beq_iff_eq] at hkind
    exact ⟨scope, hu, hkind⟩
  · rintro ⟨scope, hu, hkind⟩
    refine ⟨mem_scopeIds hu, ?_⟩
    rw [hu, Option.any_some, beq_iff_eq, Bool.eq_iff_iff, beq_iff_eq]
    exact hkind

/-- The scopes that are to be reported on are chosen, each once, unless no scope has the wanted
name. -/
theorem chosenScopes_cases (perInstance : Bool) (name : Option String) :
    (∃ scopes, db.chosenScopes perInstance name = .ok scopes ∧ scopes.Nodup ∧
      ∀ u, u ∈ scopes ↔ db.Chosen perInstance name u) ∨
    ∃ wanted, name = some wanted ∧ (∀ u scope, db.scope? u = some scope → scope.name ≠ wanted) ∧
      db.chosenScopes perInstance name = .error (.lookup (.scopeNameNotFound wanted)) := by
  cases name with
  | none =>
    exact .inl ⟨_, rfl, db.nodup_scopeIds.sublist List.filter_sublist, fun u => mem_reportedScopes⟩
  | some wanted =>
    rw [chosenScopes, scopeByName]
    cases hfind : db.findScope? wanted with
    | none => exact .inr ⟨wanted, rfl, fun u scope => findScope?_eq_none hfind, rfl⟩
    | some u =>
      refine .inl ⟨[u], rfl, List.nodup_singleton u, fun v => ?_⟩
      rw [List.mem_singleton, Chosen, hfind, Option.some.injEq, eq_comm]

end Database

namespace Command

/-- Only a consistent database is loaded. -/
theorem check_of_load {files : Files} {path : String} {db : Database}
    (h : load files path = .ok db) : db.check = .ok () := by
  obtain ⟨text, -, h⟩ := bind_eq_ok_iff.mp h
  exact (Snapshot.read_eq_ok_iff.mp (mapError_eq_ok_iff.mp h)).2

/-- A report leaves all files as they are, whatever comes of it. -/
theorem files_of_report {files : Files} {args : List String} {inv : Invocation}
    (hparse : parse args = .ok inv) {snapshot : String} {detail : Bool} {scope : Option String}
    (hcommand : inv.command = .report snapshot detail scope) : (run files args).files = files := by
  simp only [run, hparse, execute, hcommand]
  exact left_of_runReport rfl

/-- A report with details on a snapshot that loads comes about, unless scoring meets a fault or no
scope has the wanted name. Its text consists of the lines of the chosen scopes, one after the other:
in each of them as many points are missing as rows are printed; the counts of an uncovered root leave
as many points as rows are printed below it; every row is labelled with a number; and no root is
printed twice. -/
theorem report_balanced {files : Files} {args : List String} {inv : Invocation}
    (hparse : parse args = .ok inv) {snapshot : String} {scope : Option String}
    (hcommand : inv.command = .report snapshot true scope) {settings : Settings}
    (hsettings : Command.settings files inv.config = .ok settings) {db : Database}
    (hload : load files snapshot = .ok db) :
    (∃ fault, (Engine.new settings.scoring).scoreAll db = .error (.fault fault) ∧
      (run files args).result = .error (.refused (.fault fault))) ∨
    ∃ stats engine db', (Engine.new settings.scoring).scoreAll db = .ok (stats, engine, db') ∧
      ((∃ wanted, scope = some wanted ∧
        (∀ u scope, db'.scope? u = some scope → scope.name ≠ wanted) ∧
        (run files args).result = .error (.refused (.lookup (.scopeNameNotFound wanted)))) ∨
      ∃ (scopes : List ScopeId) (pages : List (List String)), scopes.Nodup ∧
        (∀ u, u ∈ scopes ↔ db'.Chosen settings.perInstance scope u) ∧
        List.Forall₂ (db'.ScopePrintedAs settings.scoring) scopes pages ∧
        (run files args).result = .ok
          ⟨if inv.quiet then "" else String.join (pages.flatten.map fun line => line ++ "\n"), ""⟩) := by
  have hf := forest_of_check (check_of_load hload)
  have hrun : (run files args).result = do
      let reports ← (db.report settings scope true).mapError .refused
      return ⟨if inv.quiet then "" else reportText reports, ""⟩ := by
    simp only [run, hparse, execute, hcommand, runReport, Attempt.on_bind, Attempt.on_ask,
      hsettings, hload]
    cases (db.report settings scope true).mapError Failure.refused <;> rfl
  rw [hrun, Database.report]
  rcases hpass : (Engine.new settings.scoring).scoreAll db with refusal | ⟨stats, engine, db'⟩
  · obtain ⟨fault, rfl⟩ := Engine.fault_of_scoreAll hf hpass
    exact .inl ⟨fault, rfl, rfl⟩
  obtain ⟨hengine, hcurrent, -⟩ := Engine.scoreAll_ok hf hpass
  have hf' : db'.Forest := hf.congr (Engine.bare_of_scoreAll hf hpass)
  have hconfig : engine.config = settings.scoring := by rw [hengine]; rfl
  refine .inr ⟨stats, engine, db', rfl, ?_⟩
  rw [ok_bind]
  dsimp only
  rw [hconfig]
  rcases db'.chosenScopes_cases settings.perInstance scope with
    ⟨scopes, hscopes, hnodup, hchosen⟩ | ⟨wanted, hwanted, hnone, hscopes⟩
  swap
  · exact .inl ⟨wanted, hwanted, hnone, by rw [hscopes]; rfl⟩
  obtain ⟨reports, hreports, hprinted⟩ : ∃ reports,
      scopes.mapM (ScopeReport.ofScope db' settings.scoring true) = .ok reports ∧
        List.Forall₂ (fun u r => db'.ScopePrintedAs settings.scoring u (ScopeReport.lines r))
          scopes reports := by
    refine exists_mapM_ok fun u hu => ?_
    obtain ⟨s, hs⟩ := ((hchosen u).mp hu).exists_scope
    exact (hcurrent u).ofScope_eq hf' hs
  refine .inr ⟨scopes, reports.map ScopeReport.lines, hnodup, hchosen,
    List.forall₂_map_right_iff.mpr hprinted, ?_⟩
  rw [hscopes, ok_bind, hreports, ← List.flatMap_def]
  rfl

/-- What is printed below the line of the scope of `andGate`. -/
example : (andGate.report .default none true).map
    (fun reports => reports.flatMap fun r => r.lines.tail) = .ok
      ["  line 7 e2: 1/3", "    [1] e2: right input never drove the AND false",
        "    [1] e2: inputs never jointly (1,1)"] := by decide +kernel

/-- One file, with the snapshot of a database. -/
def snapshotFile (db : Database) : Files := ⟨[], [], [(["top.json"], (Snapshot.write db).toUTF8)]⟩

/-- The file is loaded as the database that it was written from. -/
theorem load_snapshotFile {db : Database} (h : db.check = .ok ()) :
    load (snapshotFile db) "top.json" = .ok db := by
  have hread : (snapshotFile db).read "top.json" = .ok (Snapshot.write db) :=
    Files.read_eq _ (show (snapshotFile db).locate "top.json" = .ok ["top.json"] from rfl) rfl
  rw [load, hread]
  exact mapError_eq_ok_iff.mpr (Snapshot.read_eq_ok_iff.mpr ⟨Snapshot.parse?_write db, h⟩)

theorem report_balanced_andGate :
    parse ["report", "top.json", "--detail"] =
        .ok ⟨false, false, none, .report "top.json" true none⟩ ∧
      Command.settings (snapshotFile andGate) none = .ok .default ∧
      load (snapshotFile andGate) "top.json" = .ok andGate ∧
      ∃ (pages : List (List String)) (heading : String) (blocks : List (List String)),
        (run (snapshotFile andGate) ["report", "top.json", "--detail"]).result =
          .ok ⟨String.join (pages.flatten.map fun line => line ++ "\n"), ""⟩ ∧
        heading :: blocks.flatten ∈ pages ∧ (blocks.flatMap List.tail).length = 2 := by
  have hparse : parse ["report", "top.json", "--detail"] =
      .ok ⟨false, false, none, .report "top.json" true none⟩ := by decide +kernel
  have hsettings : Command.settings (snapshotFile andGate) none = .ok .default := rfl
  have hload := load_snapshotFile (show andGate.check = .ok () by decide)
  have hrun : ((Engine.new .default).scoreAll andGate).map (fun r =>
      (r.2.2.scope? ⟨0⟩).map fun s => (s.kind, s.stat.combHit, s.stat.combTotal)) =
        .ok (some (.moduleScope, 1, 3)) := by decide +kernel
  refine ⟨hparse, hsettings, hload, ?_⟩
  rcases report_balanced hparse rfl hsettings hload with
    ⟨fault, hfault, -⟩ | ⟨stats, engine, db, hpass, ⟨wanted, hwanted, -⟩ |
      ⟨scopes, pages, -, hchosen, hprinted, hresult⟩⟩
  · rw [show (Engine.new .default).scoreAll andGate = _ from hfault] at hrun
    cases hrun
  · cases hwanted
  · rw [show (Engine.new .default).scoreAll andGate = _ from hpass] at hrun
    obtain ⟨scope, hscope, hstat⟩ := Option.map_eq_some_iff.mp (Except.ok.inj hrun)
    obtain ⟨hkind, hcounts⟩ := Prod.mk.inj hstat
    obtain ⟨hhit, htotal⟩ := Prod.mk.inj hcounts
    have hmem : ⟨0⟩ ∈ scopes :=
      (hchosen ⟨0⟩).mpr ⟨scope, hscope, by rw [hkind]; decide⟩
    obtain ⟨page, hpage, scope', missing, lists, blocks, hscope', -, rfl, hbalance, -, hrows, -⟩ :=
      exists_of_mem_forall₂ hprinted hmem
    cases hscope.symm.trans hscope'
    rw [hhit, htotal] at hbalance
    refine ⟨pages, _, blocks, hresult, hpage, ?_⟩
    rw [hrows]
    exact Nat.add_left_cancel hbalance

end Command

end LogicCoverage
