import LogicCoverage.Proofs.Toggle

/-!
# Exact statistics

The cached statistic of a scope is exact when it is the tally of the scope. A recalculation makes
the one of its scope exact, and leaves the others so. An exclusion moves the tallies of the scopes
that list the statement, and their statistics by as much, so that exact statistics stay exact and in
range.
-/

namespace LogicCoverage.Database

open Relation

variable {db db' : Database} {cfg : ScoringConfig} {u v : ScopeId} {scope : Scope}

/-- What is cached for a scope is its tally, and the trees it lists can be scored. -/
structure Exact (db : Database) (cfg : ScoringConfig) (u : ScopeId) : Prop where
  tally {scope : Scope} : db.scope? u = some scope →
    scope.stat.tally = db.tallyOf cfg scope.statements
  scorable {scope : Scope} : db.scope? u = some scope →
    ∀ id ∈ scope.statements, db.TreeScorable cfg id

namespace Exact

/-- Statistics are exact by what is bare, the shares of the listed statements, and the scope. -/
theorem congr (h : db.Exact cfg u) (hf : db.Forest) (hb : db'.bare = db.bare)
    (hscope : db'.scope? u = db.scope? u)
    (hshare : ∀ scope, db.scope? u = some scope → ∀ id ∈ scope.statements,
      db'.share cfg id = db.share cfg id) : db'.Exact cfg u where
  tally {scope} hu := by
    rw [hscope] at hu
    rw [tallyOf_congr (hshare scope hu)]
    exact h.tally hu
  scorable {scope} hu id hid := by
    rw [hscope] at hu
    exact hf.treeScorable_congr hb (h.scorable hu id hid)

theorem ordered (h : db.Exact cfg u) (hu : db.scope? u = some scope) :
    Ordered scope.stat.tally := by
  rw [h.tally hu]
  exact tallyOf_ordered scope.statements

theorem fits (h : db.Exact cfg u) (hu : db.scope? u = some scope) (col : Column) :
    db.tallyOf cfg scope.statements col < UInt32.size := by
  rw [← h.tally hu]
  exact scope.stat.tally_lt col

/-- A recalculation returns what is cached. -/
theorem stat_eq (h : db.Exact cfg u) (hf : db.Forest) (hu : db.scope? u = some scope)
    {stat : Statistic} (hrecalc : db.recalcScope u cfg = .ok (stat, db')) : stat = scope.stat :=
  Statistic.tally_inj ((hf.recalculated hu hrecalc).tally.trans (h.tally hu).symm)

/-- A recalculation can only run out of underline ids. -/
theorem recalcScope_error (h : db.Exact cfg u) (hf : db.Forest) (hu : db.scope? u = some scope)
    {refusal : Refusal} (hrecalc : db.recalcScope u cfg = .error refusal) :
    refusal = .fault .underlinesExhausted ∧ ¬ ∀ id ∈ scope.statements, db.Settled cfg id :=
  hf.recalcScope_error hu (h.scorable hu) (h.fits hu) hrecalc

end Exact

/-! ## Recalculations -/

namespace Recalculated

variable {stat : Statistic} (h : db.Recalculated cfg u scope stat db')

include h

theorem unscored : db'.unscored = db.unscored := by
  obtain ⟨⟨db₁, hruns, rfl, -⟩, -, -⟩ := h
  exact (unscored_setStat db₁ u stat).trans (unscored_of_rescorings hruns).1

theorem bare : db'.bare = db.bare := bare_eq_of_unscored h.unscored

theorem scope? (v : ScopeId) : db'.scope? v =
    if v = u then (db.scope? v).map fun scope => { scope with stat } else db.scope? v := by
  obtain ⟨⟨db₁, hruns, rfl, -⟩, -, -⟩ := h
  rw [scope?_setStat, Database.scope?, (unscored_of_rescorings hruns).2, Database.scope?]

/-- Afterwards the statistic is exact. -/
theorem exact_self (hf : db.Forest) (hu : db.scope? u = some scope) : db'.Exact cfg u where
  tally {scope'} hu' := by
    rw [h.scope?, if_pos rfl, hu] at hu'
    cases hu'
    show stat.tally = db'.tallyOf cfg scope.statements
    rw [h.tally, tallyOf_congr fun id _ => congrFun (hf.share_eq_of_unscored h.unscored) id]
  scorable {scope'} hu' id hid := by
    rw [h.scope?, if_pos rfl, hu] at hu'
    cases hu'
    exact hf.treeScorable_congr h.bare (h.scorable id hid)

/-- Exact statistics stay exact. -/
theorem exact (hf : db.Forest) (hu : db.scope? u = some scope) (hv : db.Exact cfg v) :
    db'.Exact cfg v := by
  by_cases hvu : v = u
  · rw [hvu]
    exact h.exact_self hf hu
  · refine hv.congr hf h.bare ?_ fun _ _ id _ =>
      congrFun (hf.share_eq_of_unscored h.unscored) id
    rw [h.scope?, if_neg hvu]

end Recalculated

/-! ## Exclusions -/

section Toggle

variable {id : StmtId} {st : Statement} {x : ExprId} {er ex : Expression}
  {excluded alsoLine moves : Bool} {before after : TreeCounts} {o : ExclusionOutcome}

/-- What a line adds changes by what the exclusion reports. -/
theorem lineTally_moved (hmoves : moves = movesLine st er x excluded alsoLine) :
    (lineTally er (if moves then excluded else st.lineExcluded) .lineHit : Int) =
        lineTally er st.lineExcluded .lineHit +
          (if moves then (if excluded then 1 else -1) else 0) ∧
      (lineTally er (if moves then excluded else st.lineExcluded) .lineExcluded : Int) =
        lineTally er st.lineExcluded .lineExcluded +
          (if moves then (if excluded then 1 else -1) else 0) := by
  cases hm : moves with
  | false => simp
  | true =>
    rw [hm] at hmoves
    simp only [movesLine, Bool.true_eq, Bool.and_eq_true, decide_eq_true_eq] at hmoves
    obtain ⟨⟨⟨-, hline⟩, hexec⟩, hne⟩ := hmoves
    simp only [lineTally, hline, if_true]
    cases excluded <;> simp_all

/-- Whatever the points are that there are: the line counters follow the line, and the totals
stay. -/
theorem pointTally_steady {points points' : List Point} (hlen : points'.length = points.length)
    (hmoves : moves = movesLine st er x excluded alsoLine) {col : Column} (hhit : col ≠ .combHit)
    (hexcluded : col ≠ .combExcluded) :
    ((pointTally points' col +
        lineTally er (if moves then excluded else st.lineExcluded) col : Nat) : Int) =
      (pointTally points col + lineTally er st.lineExcluded col : Nat) +
        (db.outcomeOf id ex before after moves excluded).delta col := by
  obtain ⟨hline, hlineExcluded⟩ := lineTally_moved hmoves
  cases col with
  | combHit => exact absurd rfl hhit
  | combExcluded => exact absurd rfl hexcluded
  | lineHit =>
    simp only [pointTally, ExclusionOutcome.delta, outcomeOf]
    omega
  | lineExcluded =>
    simp only [pointTally, ExclusionOutcome.delta, outcomeOf]
    omega
  | combTotal =>
    simp only [pointTally, lineTally, ExclusionOutcome.delta, hlen]
    omega
  | lineTotal => simp only [pointTally, lineTally, ExclusionOutcome.delta, Int.add_zero]

/-- The share of the statement changes by what the exclusion reports. -/
theorem pointTally_moved {points points' : List Point} (hbefore : before.Counts points)
    (hafter : after.Counts points') (hlen : points'.length = points.length)
    (hmoves : moves = movesLine st er x excluded alsoLine) (col : Column) :
    ((pointTally points' col +
        lineTally er (if moves then excluded else st.lineExcluded) col : Nat) : Int) =
      (pointTally points col + lineTally er st.lineExcluded col : Nat) +
        (db.outcomeOf id ex before after moves excluded).delta col := by
  have hh := hbefore.hit
  have he := hbefore.excluded
  have hh' := hafter.hit
  have he' := hafter.excluded
  cases col with
  | combHit =>
    simp only [pointTally, lineTally, ExclusionOutcome.delta, outcomeOf]
    omega
  | combExcluded =>
    simp only [pointTally, lineTally, ExclusionOutcome.delta, outcomeOf]
    omega
  | _ => exact pointTally_steady hlen hmoves (by decide) (by decide)

namespace Turned

variable (h : db.Turned cfg st.root x excluded before after db') (hf : db.Forest)
  (hs : db.stmt? id = some st) (hr : db.expr? st.root = some er)

include h hf hs hr

/-- The shares of other statements stay, under any configuration. -/
theorem share_of_ne (he : db.expr? x = some ex) (hx : x ∈ db.nodes st.root) (moves : Bool)
    (cfg' : ScoringConfig) {other : StmtId} (hne : other ≠ id) :
    (db'.moveLine id moves excluded).share cfg' other = db.share cfg' other := by
  have hstmt : (db'.moveLine id moves excluded).stmt? other = db.stmt? other := by
    rw [stmt?_moveLine, if_neg hne, stmt?, h.stmts, stmt?]
  have hnodes := db'.sameNodes_moveLine id moves excluded
  funext col
  cases hs' : db.stmt? other with
  | none => rw [share, share, hstmt, hs']
  | some st' =>
    obtain ⟨er', hr', -⟩ := hf.root hs'
    obtain ⟨er₂, hr₂, hbare⟩ := exists_expr?_of_bare (hnodes.bare.trans h.bare) hr'
    rw [share_eq (hstmt.trans hs') hr₂, share_eq hs' hr', ← lineTally_bare er₂, hbare,
      lineTally_bare]
    congr 2
    apply hf.treePoints_congr hr' (hnodes.bare.trans h.bare)
    intro y hy
    rw [hnodes.muted (hf.congr h.bare), h.muted_of_notMem hf he]
    intro hyx
    exact hne (hf.stmt_eq_of_mem_nodes hs' hs hy (hf.nodes_trans hr hx hyx))

/-- The share of the statement afterwards. -/
theorem share_moveLine (moves : Bool) (cfg' : ScoringConfig) (col : Column) :
    (db'.moveLine id moves excluded).share cfg' id col =
      pointTally (db'.treePoints cfg' st.root) col +
        lineTally er (if moves then excluded else st.lineExcluded) col := by
  have hs₂ : (db'.moveLine id moves excluded).stmt? id =
      some { st with lineExcluded := if moves then excluded else st.lineExcluded } := by
    rw [stmt?_moveLine, if_pos rfl, stmt?, h.stmts, ← stmt?, hs]
    rfl
  have hnodes := db'.sameNodes_moveLine id moves excluded
  obtain ⟨er₁, hr₁, -⟩ := exists_expr?_of_bare h.bare hr
  obtain ⟨er₂, hr₂, hbare⟩ := exists_expr?_of_bare (hnodes.bare.trans h.bare) hr
  rw [share_eq hs₂ hr₂, ← lineTally_bare er₂, hbare, lineTally_bare,
    hnodes.treePoints (hf.congr h.bare) hr₁]

/-- The share of the statement changes by what the exclusion reports. -/
theorem share_self (hmoves : moves = movesLine st er x excluded alsoLine) (col : Column) :
    ((db'.moveLine id moves excluded).share cfg id col : Int) =
      db.share cfg id col + (db.outcomeOf id ex before after moves excluded).delta col := by
  obtain ⟨hbefore, hafter⟩ := h.counts hf hs
  rw [h.share_moveLine hf hs hr, share_eq hs hr]
  exact pointTally_moved hbefore hafter (hf.length_treePoints_congr hr h.bare) hmoves col

/-- The lines and the totals change by what the exclusion reports, under any configuration. -/
theorem share_steady (hmoves : moves = movesLine st er x excluded alsoLine) (cfg' : ScoringConfig)
    {col : Column} (hhit : col ≠ .combHit) (hexcluded : col ≠ .combExcluded) :
    ((db'.moveLine id moves excluded).share cfg' id col : Int) =
      db.share cfg' id col + (db.outcomeOf id ex before after moves excluded).delta col := by
  rw [h.share_moveLine hf hs hr, share_eq hs hr]
  exact pointTally_steady (hf.length_treePoints_congr hr h.bare) hmoves hhit hexcluded

/-- A scope that lists the statement has its tally moved. -/
theorem tallyOf_of_mem (he : db.expr? x = some ex) (hx : x ∈ db.nodes st.root)
    (hmoves : moves = movesLine st er x excluded alsoLine) {stmts : List StmtId} (hid : id ∈ stmts)
    (col : Column) :
    ((db'.moveLine id moves excluded).tallyOf cfg stmts col : Int) =
      db.tallyOf cfg stmts col + (db.outcomeOf id ex before after moves excluded).delta col :=
  tallyOf_of_share (fun _ hne => h.share_of_ne hf hs hr he hx moves cfg hne)
    (h.share_self hf hs hr hmoves col) hid

end Turned

namespace Toggled

variable (h : db.Toggled cfg id st x ex moves excluded o db')

include h

/-- Scopes stay, and have their statistics moved if they list the statement. -/
theorem scope_cases {scope' : Scope} (hu' : db'.scope? v = some scope') :
    ∃ scope, db.scope? v = some scope ∧ scope'.statements = scope.statements ∧
      (id ∈ scope.statements → scope.stat.Moved o.delta scope'.stat) ∧
        (id ∉ scope.statements → scope'.stat = scope.stat) := by
  obtain ⟨before, after, db₁, hturned, rfl, hmoved⟩ := h
  have hscope := hturned.scope?_moveLine id moves v
  by_cases hlisted : v ∈ db.scopesListing id
  · obtain ⟨scope, hu, hid⟩ := mem_scopesListing.mp hlisted
    obtain ⟨stat, hstat, hmove⟩ := hmoved.inside hlisted (hscope.trans hu)
    cases hu'.symm.trans hstat
    exact ⟨scope, hu, rfl, fun _ => hmove, fun hnot => absurd hid hnot⟩
  · have hu : db.scope? v = some scope' := (((hmoved.outside hlisted).trans hscope).symm.trans hu')
    exact ⟨scope', hu, rfl, fun hid => absurd (mem_scopesListing.mpr ⟨scope', hu, hid⟩) hlisted,
      fun _ => rfl⟩

variable (hf : db.Forest) (hs : db.stmt? id = some st) (hr : db.expr? st.root = some er)

include hf hs hr

/-- The share of the statement changes by what the exclusion reports. -/
theorem share_self (hmoves : moves = movesLine st er x excluded alsoLine) (col : Column) :
    (db'.share cfg id col : Int) = db.share cfg id col + o.delta col := by
  obtain ⟨before, after, db₁, hturned, rfl, hmoved⟩ := h
  have hb := (db₁.sameNodes_moveLine id moves excluded).bare.trans hturned.bare
  rw [(hf.congr hb).share_eq_of_unscored hmoved.unscored]
  exact hturned.share_self hf hs hr hmoves col

/-- The lines and the totals change by what the exclusion reports, under any configuration. -/
theorem share_steady (hmoves : moves = movesLine st er x excluded alsoLine) (cfg' : ScoringConfig)
    {col : Column} (hhit : col ≠ .combHit) (hexcluded : col ≠ .combExcluded) :
    (db'.share cfg' id col : Int) = db.share cfg' id col + o.delta col := by
  obtain ⟨before, after, db₁, hturned, rfl, hmoved⟩ := h
  have hb := (db₁.sameNodes_moveLine id moves excluded).bare.trans hturned.bare
  rw [(hf.congr hb).share_eq_of_unscored hmoved.unscored]
  exact hturned.share_steady hf hs hr hmoves cfg' hhit hexcluded

variable (he : db.expr? x = some ex) (hx : x ∈ db.nodes st.root)

include he hx

/-- The shares of other statements stay, under any configuration. -/
theorem share_of_ne (cfg' : ScoringConfig) {other : StmtId} (hne : other ≠ id) :
    db'.share cfg' other = db.share cfg' other := by
  obtain ⟨before, after, db₁, hturned, rfl, hmoved⟩ := h
  have hb := (db₁.sameNodes_moveLine id moves excluded).bare.trans hturned.bare
  rw [(hf.congr hb).share_eq_of_unscored hmoved.unscored]
  exact hturned.share_of_ne hf hs hr he hx moves cfg' hne

/-- A counter that is the tally of its scope stays so, if the share of the statement under the
configuration changes by what the exclusion reports. -/
theorem tally_eq {cfg' : ScoringConfig} {col : Column}
    (hself : (db'.share cfg' id col : Int) = db.share cfg' id col + o.delta col)
    (hv : ∀ scope, db.scope? v = some scope →
      scope.stat.tally col = db.tallyOf cfg' scope.statements col) {scope' : Scope}
    (hu' : db'.scope? v = some scope') :
    scope'.stat.tally col = db'.tallyOf cfg' scope'.statements col := by
  obtain ⟨scope, hu, hstmts, hmoved, hkept⟩ := h.scope_cases hu'
  have hother (other : StmtId) : other ≠ id → db'.share cfg' other = db.share cfg' other :=
    h.share_of_ne hf hs hr he hx cfg'
  rw [hstmts]
  by_cases hid : id ∈ scope.statements
  · rw [← Int.natCast_inj, hmoved hid col, hv scope hu, tallyOf_of_share hother hself hid]
  · rw [hkept hid, hv scope hu, tallyOf_congr fun other hmem => hother other ?_]
    rintro rfl
    exact hid hmem

/-- Exact statistics stay exact. -/
theorem exact (hmoves : moves = movesLine st er x excluded alsoLine) (hv : db.Exact cfg v) :
    db'.Exact cfg v where
  tally {scope'} hu' := by
    funext col
    refine h.tally_eq hf hs hr he hx (h.share_self hf hs hr hmoves col) (fun scope hu => ?_) hu'
    rw [hv.tally hu]
  scorable {scope'} hu' id' hid' := by
    obtain ⟨scope, hu, hstmts, -, -⟩ := h.scope_cases hu'
    rw [hstmts] at hid'
    obtain ⟨before, after, db₁, hturned, rfl, hmoved⟩ := h
    have hb := (db₁.sameNodes_moveLine id moves excluded).bare.trans hturned.bare
    exact hf.treeScorable_congr ((bare_eq_of_unscored hmoved.unscored).trans hb)
      (hv.scorable hu id' hid')

end Toggled

/-- Where statistics are exact, a toggle can only run out of numbers. -/
theorem Untoggled.exhausted {fault : Fault} (h : db.Untoggled cfg id st x ex moves excluded fault)
    (hf : db.Forest) (hs : db.stmt? id = some st) (hr : db.expr? st.root = some er)
    (he : db.expr? x = some ex) (hx : x ∈ db.nodes st.root)
    (hmoves : moves = movesLine st er x excluded alsoLine) (hu : db.scope? u = some scope)
    (hid : id ∈ scope.statements) (hexact : ∀ v, db.Exact cfg v) :
    fault = .underlinesExhausted ∧
      (db.Crowded cfg st.root ∨ ∃ marks counts marks' db₁,
        db.Scored cfg st.root marks counts marks' db₁ ∧
          (db₁.setExcluded x excluded).Crowded cfg st.root) := by
  have hscorable : db.TreeScorable cfg id := (hexact u).scorable hu id hid
  have hfit : (db.treePoints cfg st.root).length < UInt32.size :=
    Nat.lt_of_le_of_lt ((hf.length_treePoints_le hs).trans (share_le_tallyOf hid _))
      ((hexact u).fits hu .combTotal)
  cases h with
  | before hunscored =>
    obtain ⟨hfault, hcrowded⟩ := hunscored.exhausted (hscorable st hs) hfit
    exact ⟨hfault, .inl hcrowded⟩
  | @after marks counts marks' db₁ hscored hunscored =>
    have hb := hscored.bare_setExcluded x excluded
    have hs₁ : (db₁.setExcluded x excluded).stmt? id = some st :=
      (hscored.stmt?_setExcluded x excluded id).trans hs
    rw [← hf.length_treePoints_congr hr hb] at hfit
    obtain ⟨hfault, hcrowded⟩ :=
      hunscored.exhausted (hf.treeScorable_congr hb hscorable st hs₁) hfit
    exact ⟨hfault, .inr ⟨marks, counts, marks', db₁, hscored, hcrowded⟩⟩
  | @shift before after db₁ v scope' col hturned hv hid' hrange =>
    refine absurd ?_ hrange
    -- On exact statistics, what a counter is moved to is a tally again, and so is in range.
    have hsum := hturned.tallyOf_of_mem hf hs hr he hx hmoves hid'
    have hbelow (total : Column)
        (htotal : (db.outcomeOf id ex before after moves excluded).delta total = 0) :
        (db₁.moveLine id moves excluded).tallyOf cfg scope'.statements total < UInt32.size := by
      have hlt := (hexact v).fits hv total
      have hdelta := hsum total
      rw [htotal, Int.add_zero, Int.natCast_inj] at hdelta
      rwa [hdelta]
    have hlt : (db₁.moveLine id moves excluded).tallyOf cfg scope'.statements col <
        UInt32.size := by
      rcases (tallyOf_ordered scope'.statements).le_total col with hle | hle
      · exact Nat.lt_of_le_of_lt hle (hbelow .combTotal rfl)
      · exact Nat.lt_of_le_of_lt hle (hbelow .lineTotal rfl)
    rw [(hexact v).tally hv, ← hsum col]
    exact ⟨Int.natCast_nonneg _, Int.ofNat_lt.mpr hlt⟩

end Toggle

end LogicCoverage.Database
