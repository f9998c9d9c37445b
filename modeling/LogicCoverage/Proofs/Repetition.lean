import LogicCoverage.Proofs.Fixpoint

/-!
# Doing it again

A second exclusion of the same kind changes nothing, whatever was cached before the first. Neither
does a second pass; what a pass reports are the tallies of the scopes, in which no underline id and
no cached statistic takes part.
-/

namespace LogicCoverage

/-! ## Exclusions -/

namespace Database

variable {db db' : Database} {cfg : ScoringConfig} {u : ScopeId} {x : ExprId}
  {excluded alsoLine : Bool} {o : ExclusionOutcome}

/-- On a consistent database, whatever its numbers and cached statistics are, an exclusion that was
carried out can be repeated: that returns the same outcome without a difference, and the same
database. -/
theorem setExclusion_idempotent (hdb : db.check = .ok ())
    (h : db.setExclusion cfg u x excluded alsoLine = .ok (o, db')) :
    db'.setExclusion cfg u x excluded alsoLine =
      .ok ({ o with combHitDelta := 0, combExcludedDelta := 0, lineHitDelta := 0 }, db') := by
  have hf : db.Forest := forest_of_check hdb
  obtain ⟨t, ht⟩ := hf.toggled_of_setExclusion h
  exact ht.setExclusion_again hf

theorem setExclusion_idempotent_sharedGate :
    sharedGate.check = .ok () ∧ ∃ o db,
      sharedGate.setExclusion .default ⟨1⟩ ⟨2⟩ true true = .ok (o, db) ∧
        (o.combHitDelta, o.lineHitDelta, o.scopes) = (2, 1, [⟨0⟩, ⟨1⟩]) ∧
          db.setExclusion .default ⟨1⟩ ⟨2⟩ true true = .ok (⟨⟨0⟩, 0, 0, 0, false, [⟨0⟩, ⟨1⟩]⟩, db) := by
  have hcheck : sharedGate.check = .ok () := by decide
  have hrun : (sharedGate.setExclusion .default ⟨1⟩ ⟨2⟩ true true).map Prod.fst =
      .ok ⟨⟨0⟩, 2, 2, 1, false, [⟨0⟩, ⟨1⟩]⟩ := by decide +kernel
  rcases h : sharedGate.setExclusion .default ⟨1⟩ ⟨2⟩ true true with refusal | ⟨o, db⟩
  · rw [h] at hrun
    cases hrun
  rw [h] at hrun
  cases Except.ok.inj hrun
  exact ⟨hcheck, _, db, rfl, rfl, setExclusion_idempotent hcheck h⟩

/-! ## What a pass reports -/

/-- The tally of a scope, by its id. -/
def tally? (db : Database) (cfg : ScoringConfig) (u : ScopeId) : Option (ScopeId × (Column → Nat)) :=
  (db.scope? u).map fun scope => (u, db.tallyOf cfg scope.statements)

/-- The tallies of all scopes. -/
def tallies (db : Database) (cfg : ScoringConfig) : List (ScopeId × (Column → Nat)) :=
  db.scopeIds.filterMap (db.tally? cfg)

/-- No number and no cached statistic takes part in a tally. -/
theorem Forest.tally?_eq_of_unscored (hf : db.Forest) (h : db'.unscored = db.unscored) :
    db'.tally? cfg = db.tally? cfg := by
  have htally : db'.tallyOf cfg = db.tallyOf cfg := by
    funext stmts
    exact tallyOf_congr fun id _ => congrFun (hf.share_eq_of_unscored h) id
  have hread (d : Database) (u : ScopeId) : d.tally? cfg u =
      (d.bare.scope? u).map fun scope => (u, d.tallyOf cfg scope.statements) := by
    rw [tally?, scope?_bare, Option.map_map]
    rfl
  funext u
  rw [hread, bare_eq_of_unscored h, htally, hread]

/-- The tallies of all scopes are read off what scorings leave alone. -/
theorem Forest.tallies_eq_of_unscored (hf : db.Forest) (h : db'.unscored = db.unscored) :
    db'.tallies cfg = db.tallies cfg := by
  rw [tallies, tallies, scopeIds_congr (bare_eq_of_unscored h), hf.tally?_eq_of_unscored h]

end Database

namespace Engine

open Database

variable {db db' : Database} {cfg : ScoringConfig} {engine engine' : Engine}
  {stats stats' : List (ScopeId × Statistic)}

/-- Scoring one scope after the other reports their tallies, as they were from the start. -/
theorem foldlM_scoreScope_tallies (hf : db.Forest) {ids : List ScopeId}
    (hex : ∀ u ∈ ids, ∃ scope, db.scope? u = some scope)
    (h : ids.foldlM (scoreScope cfg) (stats, db) = .ok (stats', db')) :
    stats'.map (Prod.map id Statistic.tally) =
      stats.map (Prod.map id Statistic.tally) ++ ids.filterMap (db.tally? cfg) := by
  induction ids generalizing stats db with
  | nil =>
    cases h
    exact (List.append_nil _).symm
  | cons u ids ih =>
    rw [List.forall_mem_cons] at hex
    obtain ⟨⟨scope, hu⟩, hex⟩ := hex
    rw [List.foldlM_cons] at h
    obtain ⟨_, hstep, h⟩ := bind_eq_ok_iff.mp h
    obtain ⟨⟨stat, db₁⟩, hrecalc, hstep⟩ := bind_eq_ok_iff.mp hstep
    cases hstep
    have hrec := hf.recalculated hu hrecalc
    have htally : db.tally? cfg u = some (u, stat.tally) := by
      rw [tally?, hu, hrec.tally]
      rfl
    -- the scopes still to come are tallied as if this one had not been scored
    have hrest := ih (hf.congr hrec.bare) (fun v hv => exists_scope?_congr hrec.bare (hex v hv)) h
    rw [hrest, hf.tally?_eq_of_unscored hrec.unscored, List.map_append,
      List.filterMap_cons_some htally, List.append_assoc]
    rfl

/-- A pass reports the tallies of all scopes. -/
theorem scoreAll_tallies (hf : db.Forest) (h : engine.scoreAll db = .ok (stats, engine', db')) :
    stats.map (Prod.map id Statistic.tally) = db.tallies engine.config := by
  obtain ⟨db₁, hcleared, -, -, h⟩ := exists_pass h
  obtain ⟨⟨stats', db₂⟩, hpass, h⟩ := bind_eq_ok_iff.mp h
  cases h
  have hf₁ : db₁.Forest := hf.congr (bare_eq_of_unscored hcleared.unscored)
  rw [foldlM_scoreScope_tallies hf₁ (fun u hu => exists_scope?_of_mem hu) hpass,
    ← hf.tallies_eq_of_unscored hcleared.unscored]
  rfl

theorem map_tally_injective :
    Function.Injective (List.map (Prod.map (id : ScopeId → ScopeId) Statistic.tally)) :=
  List.map_injective_iff.mpr
    (Function.injective_id.prodMap fun _ _ => Statistic.tally_inj)

/-- What a pass reports depends on the configuration, and on what scorings leave alone. -/
theorem scoreAll_congr (hf : db.Forest) (h : engine.scoreAll db = .ok (stats, engine', db'))
    {other other' : Database} {engine₂ engine₂' : Engine} (hother : other.unscored = db.unscored)
    (hconfig : engine₂.config = engine.config)
    (h₂ : engine₂.scoreAll other = .ok (stats', engine₂', other')) : stats' = stats := by
  have hf₂ : other.Forest := hf.congr (bare_eq_of_unscored hother)
  apply map_tally_injective
  rw [scoreAll_tallies hf₂ h₂, scoreAll_tallies hf h, hconfig, hf.tallies_eq_of_unscored hother]

/-- On a consistent database, a pass that has succeeded can be repeated under the configuration it
had: that returns the same statistics, and the same engine and database. No pass under this
configuration over a database that differs in nothing but underline ids and cached statistics reports
anything else. -/
theorem scoreAll_idempotent (hdb : db.check = .ok ())
    (h : engine.scoreAll db = .ok (stats, engine', db')) :
    engine'.config = engine.config ∧ engine'.scoreAll db' = .ok (stats, engine', db') ∧
      ∀ (other other' : Database) (engine₂ engine₂' : Engine) stats₂,
        other.unscored = db.unscored → engine₂.config = engine.config →
          engine₂.scoreAll other = .ok (stats₂, engine₂', other') → stats₂ = stats := by
  have hf : db.Forest := forest_of_check hdb
  obtain ⟨rfl, hcurrent, -⟩ := scoreAll_ok hf h
  have hunscored := unscored_of_scoreAll hf h
  have hagain : Engine.scoreAll { engine with scoredWith := some engine.config } db' =
      .ok (db'.cachedStats, { engine with scoredWith := some engine.config }, db') :=
    scoreAll_eq_self (hf.congr (bare_eq_of_unscored hunscored)) (by simp [isOutdated]) hcurrent
  refine ⟨rfl, ?_, ?_⟩
  · rw [hagain, scoreAll_congr hf h hunscored (by rfl) hagain]
  · intro other other' engine₂ engine₂' stats₂ hother hconfig h₂
    exact scoreAll_congr hf h hother hconfig h₂

theorem scoreAll_idempotent_sharedGate :
    sharedGate.check = .ok () ∧ ∃ stats engine db engine₂ db₂,
      (Engine.new .default).scoreAll sharedGate = .ok (stats, engine, db) ∧
        (Engine.new .default).scoreAll sharedGate.unscored = .ok (stats, engine₂, db₂) ∧
          stats = [(⟨0⟩, ⟨1, 3, 0, 0, 1, 0⟩), (⟨1⟩, ⟨1, 3, 0, 0, 1, 0⟩)] ∧
            engine.scoreAll db = .ok (stats, engine, db) := by
  have hcheck : sharedGate.check = .ok () := by decide
  have hrun : ((Engine.new .default).scoreAll sharedGate).map Prod.fst =
      .ok [(⟨0⟩, ⟨1, 3, 0, 0, 1, 0⟩), (⟨1⟩, ⟨1, 3, 0, 0, 1, 0⟩)] := by decide +kernel
  have hrun₂ : ((Engine.new .default).scoreAll sharedGate.unscored).map (fun _ => ()) = .ok () := by
    decide +kernel
  rcases h : (Engine.new .default).scoreAll sharedGate with refusal | ⟨stats, engine, db⟩
  · rw [h] at hrun
    cases hrun
  rcases h₂ : (Engine.new .default).scoreAll sharedGate.unscored with
    refusal | ⟨stats₂, engine₂, db₂⟩
  · rw [h₂] at hrun₂
    cases hrun₂
  rw [h] at hrun
  obtain ⟨-, hagain, hother⟩ := scoreAll_idempotent hcheck h
  have hunscored : sharedGate.unscored.unscored = sharedGate.unscored := by decide +kernel
  cases hother _ _ _ _ _ hunscored rfl h₂
  exact ⟨hcheck, stats, engine, db, engine₂, db₂, rfl, rfl, Except.ok.inj hrun, hagain⟩

end Engine

end LogicCoverage
