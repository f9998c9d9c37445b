import LogicCoverage.Proofs.Fixpoint
import LogicCoverage.Proofs.Reports
import LogicCoverage.Proofs.Rewritten

/-!
# Excluding in a snapshot file

The command that sets an exclusion saves everything or nothing, and cannot fail once it has saved.
What it saves is a fixpoint: a pass over the saved database returns it as it is, and the same
command, if it names its node by id, saves the same file again.
-/

namespace LogicCoverage

open Database

namespace Database

variable {db db' : Database}

/-- What a toggle reports to have moved: at least the scope that was named, and only scopes that
there are. -/
theorem Target.Toggled.scopes {cfg : ScoringConfig} {u : ScopeId} {x : ExprId} {t : db.Target u x}
    {excluded alsoLine : Bool} {o : ExclusionOutcome}
    (h : t.Toggled cfg excluded alsoLine o db') :
    u ∈ o.scopes ∧ ∀ v ∈ o.scopes, ∃ scope, db'.scope? v = some scope := by
  have hb := h.bare
  obtain ⟨before, after, db₁, -, -, rfl⟩ := h.turned
  refine ⟨mem_scopesListing.mpr ⟨t.scope, t.scope_eq, t.listed⟩, fun v hv => ?_⟩
  obtain ⟨scope, hscope, -⟩ := mem_scopesListing.mp hv
  exact exists_scope?_congr hb ⟨scope, hscope⟩

end Database

namespace Command

variable {files files' : Files} {args : List String} {inv : Invocation} {settings : Settings}
  {snapshot scope : String} {expr : ExprId} {underline : Option UInt32} {remove line : Bool}
  {db db' : Database} {o : ExclusionOutcome}

/-! ## The exclusion -/

/-- An exclusion toggles a node once all scopes are current. Without a number, it is the node that
was named. -/
theorem toggled_of_exclusion (hf : db.Forest)
    (h : exclusion db settings scope expr underline remove line = .ok (o, db')) :
    ∃ (db₁ : Database) (u : ScopeId) (x : ExprId) (alsoLine : Bool) (t : db₁.Target u x),
      db₁.Forest ∧ (∀ v, db₁.Current settings.scoring v) ∧ db₁.findScope? scope = some u ∧
        t.Toggled settings.scoring (!remove) alsoLine o db' ∧
          (underline = none → x = expr ∧ alsoLine = line) := by
  obtain ⟨⟨stats, engine, db₁⟩, hpass, h⟩ := bind_eq_ok_iff.mp h
  obtain ⟨u, hu, h⟩ := bind_eq_ok_iff.mp h
  obtain ⟨hengine, hcurrent, -⟩ := Engine.scoreAll_ok hf hpass
  have hf₁ : db₁.Forest := hf.congr (Engine.bare_of_scoreAll hf hpass)
  have hfind : db₁.findScope? scope = some u := by
    rcases found_cases (db₁.findScope? scope) (.scopeNameNotFound scope) with
      ⟨v, hv, hok⟩ | herr
    · cases hok.symm.trans hu
      exact hv
    · cases herr.symm.trans hu
  have hconfig : engine.config = settings.scoring := by rw [hengine]; rfl
  rw [hconfig] at h
  cases underline with
  | none =>
    obtain ⟨t, h⟩ := hf₁.toggled_of_setExclusion h
    exact ⟨db₁, u, expr, line, t, hf₁, hcurrent, hfind, h, fun _ => ⟨rfl, rfl⟩⟩
  | some n =>
    obtain ⟨x, -, h⟩ := hf₁.found_of_setExclusionByUnderline h
    obtain ⟨t, h⟩ := hf₁.toggled_of_setExclusion h
    exact ⟨db₁, u, x, false, t, hf₁, hcurrent, hfind, h, nofun⟩

/-- An exclusion leaves a database that a pass returns as it is and, if its node was named by id,
so does the same exclusion. -/
structure Lasting (db : Database) (settings : Settings) (scope : String) (expr : ExprId)
    (underline : Option UInt32) (remove line : Bool) (o : ExclusionOutcome) : Prop where
  check : db.check = .ok ()
  nonempty : o.scopes ≠ []
  exists_scope {v : ScopeId} : v ∈ o.scopes → ∃ s, db.scope? v = some s
  scoreAll : (Engine.new settings.scoring).scoreAll db =
    .ok (db.cachedStats, ⟨settings.scoring, some settings.scoring⟩, db)
  again : underline = none →
    ∃ o', exclusion db settings scope expr none remove line = .ok (o', db) ∧
      o'.combHitDelta = 0 ∧ o'.combExcludedDelta = 0 ∧ o'.lineHitDelta = 0

theorem lasting_of_exclusion (hf : db.Forest)
    (h : exclusion db settings scope expr underline remove line = .ok (o, db')) :
    Lasting db' settings scope expr underline remove line o := by
  obtain ⟨db₁, u, x, alsoLine, t, hf₁, hcurrent, hu, ht, hid⟩ := toggled_of_exclusion hf h
  have hf' : db'.Forest := hf₁.congr ht.bare
  have hscopes := ht.scopes
  have hpass : (Engine.new settings.scoring).scoreAll db' =
      .ok (db'.cachedStats, ⟨settings.scoring, some settings.scoring⟩, db') :=
    Engine.scoreAll_eq_self hf' rfl fun v => ht.current hf₁ (hcurrent v)
  refine ⟨hf'.check, List.ne_nil_of_mem hscopes.1, fun hv => hscopes.2 _ hv, hpass, fun hnone => ?_⟩
  obtain ⟨rfl, rfl⟩ := hid hnone
  have hu' : db'.scopeByName scope = .ok u := by
    rw [scopeByName, ← findScope?_bare, ht.bare, findScope?_bare, hu]
    rfl
  refine ⟨{ o with combHitDelta := 0, combExcludedDelta := 0, lineHitDelta := 0 }, ?_, rfl, rfl,
    rfl⟩
  rw [exclusion, hpass, ok_bind]
  dsimp only
  rw [hu', ok_bind]
  exact ht.setExclusion_again hf₁

theorem Lasting.exists_output (h : Lasting db settings scope expr underline remove line o) :
    ∃ output, exclusionOutput db expr remove o = .ok output := by
  obtain ⟨v, scopes, hcons⟩ := List.exists_cons_of_ne_nil h.nonempty
  obtain ⟨s, hs⟩ := h.exists_scope (hcons ▸ List.mem_cons_self)
  have hfirst : entry o.scopes.toArray 0 = .ok v := entry_eq_ok_iff.mpr (by rw [hcons]; rfl)
  rw [exclusionOutput, hfirst, ok_bind, db.scope_eq_ok_iff.mpr hs]
  exact ⟨_, rfl⟩

/-! ## The command -/

/-- What has happened when an exclusion was saved. -/
theorem of_saveExclusion
    (h : (saveExclusion inv snapshot scope expr underline remove line).on files =
      (.ok (o, db), files')) :
    ∃ settings text, Command.settings files inv.config = .ok settings ∧
      files.Rewritten snapshot text (Snapshot.write db) files' ∧
      ∃ db₀, Snapshot.read text = .ok db₀ ∧
        exclusion db₀ settings scope expr underline remove line = .ok (o, db) := by
  rw [← Attempt.outcome_eq_ok_iff, saveExclusion_steps] at h
  obtain ⟨settings, hsettings, h⟩ := bind_eq_ok_iff.mp h
  obtain ⟨db₀, hload, h⟩ := bind_eq_ok_iff.mp h
  obtain ⟨text, htext, hread⟩ := bind_eq_ok_iff.mp hload
  obtain ⟨⟨o', db'⟩, hexclusion, h⟩ := bind_eq_ok_iff.mp h
  obtain ⟨written, hwrite, h⟩ := bind_eq_ok_iff.mp h
  cases h
  exact ⟨settings, text, hsettings,
    ⟨mapError_eq_ok_iff.mp htext, mapError_eq_ok_iff.mp hwrite⟩, db₀, mapError_eq_ok_iff.mp hread,
    mapError_eq_ok_iff.mp hexclusion⟩

/-- A run whose exclusion was saved and can be told succeeds. -/
theorem run_of_saveExclusion (hparse : parse args = .ok inv)
    (hcommand : inv.command = .exclude snapshot scope expr underline remove line)
    (h : (saveExclusion inv snapshot scope expr underline remove line).on files =
      (.ok (o, db), files')) {output : Output} (houtput : exclusionOutput db expr remove o = .ok output) :
    run files args = ⟨files', .ok (if inv.quiet then ⟨"", ""⟩ else output)⟩ := by
  have hexclude : (runExclude inv snapshot scope expr underline remove line).on files =
      (.ok (if inv.quiet then ⟨"", ""⟩ else output), files') := by
    rw [runExclude, Attempt.on_bind, h]
    dsimp only
    rw [Attempt.on_ask, houtput]
    cases inv.quiet <;> rfl
  simp only [run, hparse, execute, hcommand, hexclude]

/-- A run whose exclusion could not be saved fails for that reason, and leaves the same files. -/
theorem run_of_not_saveExclusion (hparse : parse args = .ok inv)
    (hcommand : inv.command = .exclude snapshot scope expr underline remove line)
    {failure : Failure}
    (h : (saveExclusion inv snapshot scope expr underline remove line).on files =
      (.error failure, files')) : run files args = ⟨files', .error failure⟩ := by
  have hexclude : (runExclude inv snapshot scope expr underline remove line).on files =
      (.error failure, files') := by rw [runExclude, Attempt.on_bind, h]
  simp only [run, hparse, execute, hcommand, hexclude]

/-- A command that sets an exclusion leaves all files as they were, or it saves and succeeds. What
it saves loads under the same settings, and a pass over it changes nothing. If the node was named
by id, the same command succeeds again, reports that nothing has moved, and leaves all files as they
are. -/
theorem run_exclude (files : Files) (args : List String) :
    (∀ error, parse args = .error error → run files args = ⟨files, .error (.usage error)⟩) ∧
    ∀ inv snapshot scope expr underline remove line, parse args = .ok inv →
      inv.command = .exclude snapshot scope expr underline remove line →
      (∃ failure, (saveExclusion inv snapshot scope expr underline remove line).on files =
          (.error failure, files) ∧ run files args = ⟨files, .error failure⟩) ∨
      ∃ settings o db files' output,
        (saveExclusion inv snapshot scope expr underline remove line).on files =
          (.ok (o, db), files') ∧
        o.scopes ≠ [] ∧ exclusionOutput db expr remove o = .ok output ∧
        run files args = ⟨files', .ok (if inv.quiet then ⟨"", ""⟩ else output)⟩ ∧
        Command.settings files inv.config = .ok settings ∧
        Command.settings files' inv.config = .ok settings ∧
        load files' snapshot = .ok db ∧
        (Engine.new settings.scoring).scoreAll db =
          .ok (db.cachedStats, ⟨settings.scoring, some settings.scoring⟩, db) ∧
        (underline = none → ∃ again output',
          (saveExclusion inv snapshot scope expr none remove line).on files' =
            (.ok (again, db), files') ∧
          again.combHitDelta = 0 ∧ again.combExcludedDelta = 0 ∧ again.lineHitDelta = 0 ∧
          exclusionOutput db expr remove again = .ok output' ∧
          run files' args = ⟨files', .ok (if inv.quiet then ⟨"", ""⟩ else output')⟩) := by
  refine ⟨fun error herr => by rw [run, herr], ?_⟩
  intro inv snapshot scope expr underline remove line hparse hcommand
  rcases hsave : (saveExclusion inv snapshot scope expr underline remove line).on files with
    ⟨failure | ⟨o, db⟩, files'⟩
  · have hleft : files' = files := left_of_saveExclusion hsave
    rw [hleft] at hsave ⊢
    exact .inl ⟨failure, rfl, run_of_not_saveExclusion hparse hcommand hsave⟩
  · obtain ⟨settings, text, hsettings, hwritten, db₀, hread, hexclusion⟩ := of_saveExclusion hsave
    have hf : db₀.Forest := forest_of_check (Snapshot.read_eq_ok_iff.mp hread).2
    -- What was saved is read back, and is a fixpoint under the same settings.
    have hlasting := lasting_of_exclusion hf hexclusion
    have hsettings' := settings_of_rewritten hwritten hread hsettings
    have hload := load_of_rewritten hwritten hlasting.check
    obtain ⟨output, houtput⟩ := hlasting.exists_output
    refine .inr ⟨settings, o, db, files', output, rfl, hlasting.nonempty, houtput,
      run_of_saveExclusion hparse hcommand hsave houtput, hsettings, hsettings', hload,
      hlasting.scoreAll, fun hnone => ?_⟩
    obtain ⟨again, hagain, hhit, hexcluded, hline⟩ := hlasting.again hnone
    have hsave' : (saveExclusion inv snapshot scope expr none remove line).on files' =
        (.ok (again, db), files') := by
      rw [← Attempt.outcome_eq_ok_iff, saveExclusion_steps, hsettings', ok_bind, hload, ok_bind,
        hagain]
      show ((files'.write snapshot (Snapshot.write db)).mapError _ >>= _) = _
      rw [hwritten.write_again]
      rfl
    obtain ⟨output', houtput'⟩ := (lasting_of_exclusion
      (forest_of_check hlasting.check) hagain).exists_output
    exact ⟨again, output', hsave', hhit, hexcluded, hline, houtput',
      run_of_saveExclusion hparse (hnone ▸ hcommand) hsave' houtput'⟩

/-- Excludes the AND gate of `andGate`. -/
def excludeGate : List String := ["exclude", "top.json", "--scope", "top", "--expr", "e2"]

theorem run_exclude_andGate :
    parse excludeGate = .ok ⟨false, false, none, .exclude "top.json" "top" ⟨2⟩ none false false⟩ ∧
      ∃ files' db output,
        run (snapshotFile andGate) excludeGate = ⟨files', .ok ⟨"excluded e2: comb_hit +2, " ++
          "comb_excluded +2, line_hit +0 in 1 scope(s); comb now 3/3\n", ""⟩⟩ ∧
        load files' "top.json" = .ok db ∧
        (Engine.new Settings.default.scoring).scoreAll db =
          .ok (db.cachedStats, ⟨Settings.default.scoring, some Settings.default.scoring⟩, db) ∧
        run files' excludeGate = ⟨files', .ok output⟩ := by
  have hparse : parse excludeGate =
      .ok ⟨false, false, none, .exclude "top.json" "top" ⟨2⟩ none false false⟩ := by decide +kernel
  have hload := load_snapshotFile (show andGate.check = .ok () by decide)
  have htext : (exclusion andGate .default "top" ⟨2⟩ none false false >>= fun result =>
      (exclusionOutput result.2 ⟨2⟩ false result.1).request) = .ok ⟨"excluded e2: comb_hit +2, " ++
        "comb_excluded +2, line_hit +0 in 1 scope(s); comb now 3/3\n", ""⟩ := by decide +kernel
  obtain ⟨⟨o, db⟩, hexclusion, htext⟩ := bind_eq_ok_iff.mp htext
  have hsave : (saveExclusion
      ⟨false, false, none, .exclude "top.json" "top" ⟨2⟩ none false false⟩
      "top.json" "top" ⟨2⟩ none false false).on (snapshotFile andGate) =
        (.ok (o, db), snapshotFile db) := by
    rw [← Attempt.outcome_eq_ok_iff, saveExclusion_steps, show Command.settings (snapshotFile andGate) none = .ok .default from rfl,
      ok_bind, hload, ok_bind, hexclusion]
    rfl
  refine ⟨hparse, ?_⟩
  rcases (run_exclude (snapshotFile andGate) excludeGate).2 _ _ _ _ _ _ _ hparse rfl with
    ⟨failure, herr, -⟩ | ⟨settings, o', db', files', output, hsave', -, houtput, hrun, hsettings, -,
      hloaded, hpass, hagain⟩
  · cases hsave.symm.trans herr
  · cases hsave.symm.trans hsave'
    cases (show Command.settings (snapshotFile andGate) none = .ok .default from rfl).symm.trans
      hsettings
    cases (Checked.request_eq_ok_iff.mp htext).symm.trans houtput
    obtain ⟨again, output', -, -, -, -, -, hrun'⟩ := hagain rfl
    exact ⟨_, db, output', hrun, hloaded, hpass, hrun'⟩

end Command

end LogicCoverage
