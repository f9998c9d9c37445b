import LogicCoverage.Proofs.Exactness

/-!
# Requests

An exclusion that names something absent is refused, and what is refused is said exactly. Otherwise
it toggles its target, a node in the tree of a statement that the scope lists. That keeps all that is
known of statistics and numbers, and the target is the same one afterwards.
-/

namespace LogicCoverage

namespace Checked

variable {α : Type} {x : Checked α}

theorem request_eq_ok_iff {a : α} : x.request = .ok a ↔ x = .ok a := by
  cases x <;> simp [request, Except.mapError]

/-- A request refuses nothing of its own. -/
theorem fault_of_request {refusal : Refusal} (h : x.request = .error refusal) :
    ∃ fault, refusal = .fault fault := by
  cases x with
  | error fault =>
    cases h
    exact ⟨fault, rfl⟩
  | ok a => cases h

end Checked

/-- What is not found is refused. -/
theorem found_cases {α : Type} (o : Option α) (error : LookupError) :
    (∃ a, o = some a ∧ found o error = .ok a) ∨ found o error = .error (.lookup error) := by
  cases o with
  | none => exact .inr rfl
  | some a => exact .inl ⟨a, rfl, rfl⟩

theorem Scope.statements_eq_of_unscored {scope scope' : Scope}
    (h : scope'.unscored = scope.unscored) : scope'.statements = scope.statements := by
  have hstmts : scope'.unscored.statements = scope.unscored.statements := by rw [h]
  exact hstmts

namespace Database

variable {db db' : Database} {cfg : ScoringConfig} {u v : ScopeId} {x y : ExprId}

/-! ## What an exclusion names -/

/-- A node in the tree of a statement that a scope lists. -/
structure Target (db : Database) (u : ScopeId) (x : ExprId) where
  scope : Scope
  stmt : StmtId
  st : Statement
  root : Expression
  node : Expression
  scope_eq : db.scope? u = some scope
  listed : stmt ∈ scope.statements
  st_eq : db.stmt? stmt = some st
  root_eq : db.expr? st.root = some root
  node_eq : db.expr? x = some node
  mem : x ∈ db.nodes st.root

/-- Why there is no target: there is no such scope, or else there is no such node, or else the node
is in none of the trees that the scope lists. -/
inductive Unlocated (db : Database) (u : ScopeId) (x : ExprId) : LookupError → Prop where
  | scope : db.scope? u = none → Unlocated db u x (.scopeNotFound u)
  | expr {scope} : db.scope? u = some scope → db.expr? x = none → Unlocated db u x (.exprNotFound x)
  | inScope {scope node} : db.scope? u = some scope → db.expr? x = some node →
    (∀ stmt ∈ scope.statements, ∀ st nodes, db.stmt? stmt = some st →
      db.subtree st.root = .ok nodes → x ∉ nodes) →
    Unlocated db u x (.exprNotInScope x u)

namespace Forest

variable (hf : db.Forest)

include hf

/-- A target is located. -/
theorem locate_eq (t : db.Target u x) : db.locate u x = .ok t.stmt := by
  rw [locate, t.scope_eq, t.node_eq, hf.statementOf_of_mem t.st_eq t.mem]
  show found ((some t.stmt).filter t.scope.statements.contains) _ = _
  rw [Option.filter_some, if_pos (List.contains_iff_mem.mpr t.listed)]
  rfl

/-- What is not to be located is refused with its reason. -/
theorem locate_of_unlocated {error : LookupError} (h : db.Unlocated u x error) :
    db.locate u x = .error (.lookup error) := by
  cases h with
  | scope hu =>
    rw [locate, hu]
    rfl
  | expr hu hx =>
    rw [locate, hu, hx]
    rfl
  | @inScope scope node hu hx hnot =>
    obtain ⟨o, ho, hspec⟩ := hf.statementOf_spec hx
    have hnone : o.filter scope.statements.contains = none := by
      rw [Option.filter_eq_none_iff]
      intro id hid hlisted
      obtain ⟨st, hst, hmem⟩ := hspec id hid
      obtain ⟨root, hr, -⟩ := hf.root hst
      exact hnot id (List.contains_iff_mem.mp hlisted) st _ hst (hf.subtree_eq hr) hmem
    rw [locate, hu, hx, ho]
    show found (o.filter scope.statements.contains) _ = _
    rw [hnone]
    rfl

/-- Either there is a target, or a reason why not. -/
theorem target_or_unlocated (u : ScopeId) (x : ExprId) :
    Nonempty (db.Target u x) ∨ ∃ error, db.Unlocated u x error := by
  cases hu : db.scope? u with
  | none => exact .inr ⟨_, .scope hu⟩
  | some scope =>
    cases hx : db.expr? x with
    | none => exact .inr ⟨_, .expr hu hx⟩
    | some node =>
      by_cases hin : ∃ stmt ∈ scope.statements, ∃ st nodes, db.stmt? stmt = some st ∧
          db.subtree st.root = .ok nodes ∧ x ∈ nodes
      · obtain ⟨stmt, hlisted, st, nodes, hst, hnodes, hmem⟩ := hin
        obtain ⟨root, hr, -⟩ := hf.root hst
        cases (hf.subtree_eq hr).symm.trans hnodes
        exact .inl ⟨⟨scope, stmt, st, root, node, hu, hlisted, hst, hr, hx, hmem⟩⟩
      · refine .inr ⟨_, .inScope hu hx ?_⟩
        intro stmt hlisted st nodes hst hnodes hmem
        exact hin ⟨stmt, hlisted, st, nodes, hst, hnodes, hmem⟩

/-- A target leaves no reason to refuse. -/
theorem not_unlocated (t : db.Target u x) (error : LookupError) : ¬ db.Unlocated u x error := by
  intro h
  cases (hf.locate_eq t).symm.trans (hf.locate_of_unlocated h)

end Forest

/-! ## What a number names -/

/-- Why nothing is addressed below a node: the node is no target, or else no node below it has the
number. -/
inductive Unaddressed (db : Database) (u : ScopeId) (x : ExprId) (n : UInt32) :
    LookupError → Prop where
  | unlocated {error} : db.Unlocated u x error → Unaddressed db u x n error
  | underline {nodes} : (∀ error, ¬ db.Unlocated u x error) → db.subtree x = .ok nodes →
    (∀ y ∈ nodes, db.number? y ≠ some n) → Unaddressed db u x n (.underlineNotFound x n)

/-- What stands below a target is one. -/
theorem Target.below (t : db.Target u x) (hf : db.Forest) (hy : y ∈ db.nodes x) :
    Nonempty (db.Target u y) := by
  obtain ⟨node, hnode⟩ := hf.expr?_of_mem_nodes t.node_eq hy
  exact ⟨{ t with node, node_eq := hnode, mem := hf.nodes_trans t.root_eq t.mem hy }⟩

/-- The first node that has the number is found, or there is none. -/
theorem Forest.findByUnderline_cases (hf : db.Forest) {node : Expression}
    (hx : db.expr? x = some node) (n : UInt32) :
    (∃ y ∈ db.nodes x, db.number? y = some n ∧ db.findByUnderline x n = .ok y) ∨
      (∀ y ∈ db.nodes x, db.number? y ≠ some n) ∧
        db.findByUnderline x n = .error (.lookup (.underlineNotFound x n)) := by
  have hfind : db.findByUnderline x n = found
      ((db.nodes x).find? fun id => (db.expr? id).any fun e => e.underline = some n)
      (.underlineNotFound x n) := by
    rw [findByUnderline, hx, hf.subtree_eq hx]
    rfl
  rw [hfind]
  cases hfirst : (db.nodes x).find? fun id => (db.expr? id).any fun e => e.underline = some n with
  | some y =>
    have htest := List.find?_some hfirst
    exact .inl ⟨y, List.mem_of_find?_eq_some hfirst, any_underline_iff.mp htest, rfl⟩
  | none =>
    rw [List.find?_eq_none] at hfirst
    refine .inr ⟨?_, rfl⟩
    intro y hy hnumber
    exact hfirst y hy (any_underline_iff.mpr hnumber)

/-- What is found below a target has the number, and is a target too. -/
theorem Target.found (t : db.Target u x) (hf : db.Forest) {n : UInt32}
    (h : db.findByUnderline x n = .ok y) :
    y ∈ db.nodes x ∧ db.number? y = some n ∧ Nonempty (db.Target u y) := by
  rcases hf.findByUnderline_cases t.node_eq n with ⟨y', hy, hnumber, hfind⟩ | ⟨-, hfind⟩
  · cases h.symm.trans hfind
    exact ⟨hy, hnumber, t.below hf hy⟩
  · cases h.symm.trans hfind

namespace Target

/-- Two targets agree, up to what is not bare. -/
structure Same (t : db.Target u x) (t' : db'.Target u x) : Prop where
  stmt : t'.stmt = t.stmt
  st : t'.st.bare = t.st.bare
  root : t'.root.bare = t.root.bare
  node : t'.node.bare = t.node.bare

variable (t : db.Target u x) (hb : db'.bare = db.bare)

include t hb

/-- The bare content says which nodes are targets. -/
theorem exists_of_bare : Nonempty (db'.Target u x) := by
  obtain ⟨scope, hu, hscope⟩ := exists_scope?_of_bare hb t.scope_eq
  obtain ⟨st, hs, hst⟩ := exists_stmt?_of_bare hb t.st_eq
  have hroot : st.root = t.st.root := Statement.root_eq_of_bare hst
  obtain ⟨root, hr, -⟩ := exists_expr?_of_bare hb t.root_eq
  obtain ⟨node, hx, -⟩ := exists_expr?_of_bare hb t.node_eq
  refine ⟨⟨scope, t.stmt, st, root, node, hu, ?_, hs, ?_, hx, ?_⟩⟩
  · rw [Scope.statements_eq_of_unscored hscope]
    exact t.listed
  · rw [hroot]
    exact hr
  · rw [hroot, nodes_congr hb]
    exact t.mem

/-- The bare content says by which statement a node is a target. -/
theorem same (hf : db.Forest) (t' : db'.Target u x) : t.Same t' := by
  obtain ⟨st, hs, hst⟩ := exists_stmt?_of_bare hb.symm t'.st_eq
  have hroot : st.root = t'.st.root := Statement.root_eq_of_bare hst
  have hmem : x ∈ db.nodes st.root := by
    rw [hroot, ← nodes_congr hb]
    exact t'.mem
  -- the trees of two statements have no node in common
  have hstmt : t'.stmt = t.stmt := hf.stmt_eq_of_mem_nodes hs t.st_eq hmem t.mem
  rw [hstmt] at hs
  cases hs.symm.trans t.st_eq
  obtain ⟨root, hr, hbare⟩ := exists_expr?_of_bare hb t.root_eq
  obtain ⟨node, hx, hnode⟩ := exists_expr?_of_bare hb t.node_eq
  have hr' := t'.root_eq
  rw [← hroot] at hr'
  cases hr.symm.trans hr'
  cases hx.symm.trans t'.node_eq
  exact ⟨hstmt, hst.symm, hbare, hnode⟩

end Target

/-! ## The toggle of a target -/

namespace Target

variable (t : db.Target u x) {excluded alsoLine : Bool} {o : ExclusionOutcome}

/-- The toggle of the target was carried out. -/
def Toggled (cfg : ScoringConfig) (excluded alsoLine : Bool) (o : ExclusionOutcome)
    (db' : Database) : Prop :=
  db.Toggled cfg t.stmt t.st x t.node (movesLine t.st t.root x excluded alsoLine) excluded o db'

/-- The toggle of the target failed. -/
def Untoggled (cfg : ScoringConfig) (excluded alsoLine : Bool) (fault : Fault) : Prop :=
  db.Untoggled cfg t.stmt t.st x t.node (movesLine t.st t.root x excluded alsoLine) excluded fault

namespace Toggled

variable {t} (h : t.Toggled cfg excluded alsoLine o db') (hf : db.Forest)

include h

/-- Between the scorings and the result, no node changes. -/
theorem turned : ∃ before after db₁, db.Turned cfg t.st.root x excluded before after db₁ ∧
    db₁.SameNodes db' ∧
      o = db.outcomeOf t.stmt t.node before after (movesLine t.st t.root x excluded alsoLine)
        excluded := by
  obtain ⟨before, after, db₁, hturned, ho, hmoved⟩ := h
  have hnodes := db₁.sameNodes_moveLine t.stmt (movesLine t.st t.root x excluded alsoLine) excluded
  refine ⟨before, after, db₁, hturned, ⟨?_, ?_⟩, ho⟩
  · exact hmoved.exprs.trans hnodes.exprs
  · exact (bare_eq_of_unscored hmoved.unscored).trans hnodes.bare

theorem bare : db'.bare = db.bare := by
  obtain ⟨before, after, db₁, hturned, hnodes, -⟩ := h.turned
  exact hnodes.bare.trans hturned.bare

include hf

theorem exact (hv : db.Exact cfg v) : db'.Exact cfg v :=
  Database.Toggled.exact h hf t.st_eq t.root_eq t.node_eq t.mem rfl hv

theorem numbered (hn : db.Numbered cfg) : db'.Numbered cfg := by
  obtain ⟨before, after, db₁, hturned, hnodes, -⟩ := h.turned
  exact hnodes.numbered (hf.congr hturned.bare) (hturned.numbered hf t.st_eq hn)

theorem audible (hn : db.Numbered cfg) (ha : db.Audible) : db'.Audible := by
  obtain ⟨before, after, db₁, hturned, hnodes, -⟩ := h.turned
  exact hnodes.audible (hf.congr hturned.bare)
    (hturned.audible hf t.st_eq t.node_eq t.mem hn ha)

theorem settled {stmt : StmtId} (hset : db.Settled cfg stmt) : db'.Settled cfg stmt := by
  obtain ⟨before, after, db₁, hturned, hnodes, -⟩ := h.turned
  apply hnodes.settled (hf.congr hturned.bare)
  by_cases hne : stmt = t.stmt
  · rw [hne]
    exact hturned.settled hf t.st_eq
  · exact hturned.settled_of_ne hf t.st_eq t.node_eq t.mem hne hset

/-- What is reported are the differences between the points of the tree. -/
theorem differences :
    o.combHitDelta = ((db'.treePoints cfg t.st.root).countP Point.covered : Int) -
        (db.treePoints cfg t.st.root).countP Point.covered ∧
      o.combExcludedDelta = ((db'.treePoints cfg t.st.root).countP Point.waived : Int) -
        (db.treePoints cfg t.st.root).countP Point.waived := by
  obtain ⟨before, after, db₁, hturned, hnodes, rfl⟩ := h.turned
  obtain ⟨hbefore, hafter⟩ := hturned.counts hf t.st_eq
  obtain ⟨er, her, -⟩ := exists_expr?_of_bare hturned.bare t.root_eq
  rw [hnodes.treePoints (hf.congr hturned.bare) her, ← hbefore.hit, ← hafter.hit,
    ← hbefore.excluded, ← hafter.excluded]
  exact ⟨rfl, rfl⟩

/-- Nodes that are not muted keep their numbers. -/
theorem number?_of_some (ha : db.Audible) {k : UInt32} (hk : db.number? y = some k)
    (hm : db'.muted y = false) : db'.number? y = some k := by
  obtain ⟨before, after, db₁, hturned, hnodes, -⟩ := h.turned
  rw [hnodes.muted (hf.congr hturned.bare)] at hm
  rw [hnodes.number?]
  exact hturned.number?_of_some hf ha hk hm

/-- The nodes above are muted or not as before. -/
theorem mutedOwner_eq : db'.mutedOwner t.node.parent = db.mutedOwner t.node.parent := by
  cases hp : t.node.parent with
  | detached | stmt => rfl
  | expr p =>
    obtain ⟨ep, hep, hchild⟩ := hf.parent t.node_eq hp
    obtain ⟨before, after, db₁, hturned, hnodes, -⟩ := h.turned
    show db'.muted p = db.muted p
    rw [hnodes.muted (hf.congr hturned.bare)]
    exact hturned.muted_of_notMem hf t.node_eq (hf.notMem_nodes_child hep hchild)

/-- Afterwards the target has its exclusion set, and its line moved if that was to be. -/
theorem after (t' : db'.Target u x) : t'.node.excluded = excluded ∧
    t'.st = { t.st with
      lineExcluded := if movesLine t.st t.root x excluded alsoLine then excluded
        else t.st.lineExcluded } := by
  constructor
  · have hflag := Database.Toggled.flagged h t.node_eq x
    rwa [if_pos rfl, flagged, t'.node_eq] at hflag
  · have hs := t'.st_eq
    rw [(t.same h.bare hf t').stmt, stmt?_eq_of_unscored (Database.Toggled.unscored h),
      stmt?_moveLine, if_pos rfl] at hs
    obtain ⟨st, hst, heq⟩ := Option.map_eq_some_iff.mp hs
    cases t.st_eq.symm.trans hst
    exact heq.symm

end Toggled

end Target

namespace Forest

variable (hf : db.Forest) (cfg : ScoringConfig) (excluded alsoLine : Bool)

include hf

/-- The exclusion of a target is carried out, or meets a fault of the toggle. -/
theorem setExclusion_of_target (t : db.Target u x) :
    (∃ o db', db.setExclusion cfg u x excluded alsoLine = .ok (o, db') ∧
      t.Toggled cfg excluded alsoLine o db') ∨
    ∃ fault, db.setExclusion cfg u x excluded alsoLine = .error (.fault fault) ∧
      t.Untoggled cfg excluded alsoLine fault := by
  rw [setExclusion_steps, hf.locate_eq t, ok_bind]
  rcases hf.toggle_cases t.st_eq t.root_eq t.node_eq with ⟨o, db', htoggle, h⟩ | ⟨fault, htoggle, h⟩
  · exact .inl ⟨o, db', by rw [htoggle]; rfl, h⟩
  · exact .inr ⟨fault, by rw [htoggle]; rfl, h⟩

/-- The exclusion of a target is not refused. -/
theorem setExclusion_ne_lookup (t : db.Target u x) (error : LookupError) :
    db.setExclusion cfg u x excluded alsoLine ≠ .error (.lookup error) := by
  intro h
  rcases hf.setExclusion_of_target cfg excluded alsoLine t with ⟨o, db', hok, -⟩ | ⟨fault, hfault, -⟩
  · cases hok.symm.trans h
  · cases hfault.symm.trans h

/-- An exclusion is refused with the reason of the look-up. -/
theorem setExclusion_of_unlocated {error : LookupError} (h : db.Unlocated u x error) :
    db.setExclusion cfg u x excluded alsoLine = .error (.lookup error) := by
  rw [setExclusion_steps, hf.locate_of_unlocated h]
  rfl

/-- An exclusion is refused, or there is a target. -/
theorem setExclusion_cases (u : ScopeId) (x : ExprId) :
    (∃ error, db.setExclusion cfg u x excluded alsoLine = .error (.lookup error)) ∨
      ∃ t : db.Target u x,
        (∃ o db', db.setExclusion cfg u x excluded alsoLine = .ok (o, db') ∧
          t.Toggled cfg excluded alsoLine o db') ∨
        ∃ fault, db.setExclusion cfg u x excluded alsoLine = .error (.fault fault) ∧
          t.Untoggled cfg excluded alsoLine fault := by
  rcases hf.target_or_unlocated u x with ⟨⟨t⟩⟩ | ⟨error, herr⟩
  · exact .inr ⟨t, hf.setExclusion_of_target cfg excluded alsoLine t⟩
  · exact .inl ⟨error, hf.setExclusion_of_unlocated cfg excluded alsoLine herr⟩

/-- An exclusion by number is that of the node with the number, without its line. -/
theorem setExclusionByUnderline_eq (t : db.Target u x) {n : UInt32}
    (hy : db.findByUnderline x n = .ok y) :
    db.setExclusionByUnderline cfg u x n excluded = db.setExclusion cfg u y excluded false := by
  rw [setExclusionByUnderline_steps, hf.locate_eq t, ok_bind, hy, ok_bind]

/-- An exclusion by number is refused with the reason of the first look-up that fails. -/
theorem setExclusionByUnderline_of_unaddressed {n : UInt32} {error : LookupError}
    (h : db.Unaddressed u x n error) :
    db.setExclusionByUnderline cfg u x n excluded = .error (.lookup error) := by
  cases h with
  | unlocated h =>
    rw [setExclusionByUnderline_steps, hf.locate_of_unlocated h]
    rfl
  | underline hlocated hnodes hnone =>
    rcases hf.target_or_unlocated u x with ⟨⟨t⟩⟩ | ⟨error, herr⟩
    swap
    · exact absurd herr (hlocated error)
    cases (hf.subtree_eq t.node_eq).symm.trans hnodes
    rcases hf.findByUnderline_cases t.node_eq n with ⟨y, hy, hnumber, -⟩ | ⟨-, hfind⟩
    · exact absurd hnumber (hnone y hy)
    · rw [setExclusionByUnderline_steps, hf.locate_eq t, ok_bind, hfind]
      rfl

/-- A number names a target, or nothing is addressed. -/
theorem addressed_or_unaddressed (u : ScopeId) (x : ExprId) (n : UInt32) :
    (∃ y, Nonempty (db.Target u x) ∧ Nonempty (db.Target u y) ∧ db.findByUnderline x n = .ok y) ∨
      ∃ error, db.Unaddressed u x n error := by
  rcases hf.target_or_unlocated u x with ⟨⟨t⟩⟩ | ⟨error, herr⟩
  swap
  · exact .inr ⟨error, .unlocated herr⟩
  rcases hf.findByUnderline_cases t.node_eq n with ⟨y, hy, -, hfind⟩ | ⟨hnone, -⟩
  · exact .inl ⟨y, ⟨t⟩, t.below hf hy, hfind⟩
  · exact .inr ⟨_, .underline (hf.not_unlocated t) (hf.subtree_eq t.node_eq) hnone⟩

/-- An exclusion by number is one by node, or refused. -/
theorem setExclusionByUnderline_cases (u : ScopeId) (x : ExprId) (underline : UInt32) :
    (∃ error, db.setExclusionByUnderline cfg u x underline excluded = .error (.lookup error)) ∨
      ∃ y, db.setExclusionByUnderline cfg u x underline excluded =
        db.setExclusion cfg u y excluded false := by
  rcases hf.addressed_or_unaddressed u x underline with ⟨y, ⟨t⟩, -, hy⟩ | ⟨error, h⟩
  · exact .inr ⟨y, hf.setExclusionByUnderline_eq cfg excluded t hy⟩
  · exact .inl ⟨error, hf.setExclusionByUnderline_of_unaddressed cfg excluded h⟩

end Forest

section Answers

variable {excluded alsoLine : Bool} {o : ExclusionOutcome} (hf : db.Forest)

include hf

/-- An exclusion is refused just if there is no target. -/
theorem Forest.setExclusion_eq_lookup_iff {error : LookupError} :
    db.setExclusion cfg u x excluded alsoLine = .error (.lookup error) ↔
      db.Unlocated u x error := by
  constructor
  · intro h
    rcases hf.target_or_unlocated u x with ⟨⟨t⟩⟩ | ⟨error', herr⟩
    · exact absurd h (hf.setExclusion_ne_lookup cfg excluded alsoLine t error)
    · cases h.symm.trans (hf.setExclusion_of_unlocated cfg excluded alsoLine herr)
      exact herr
  · exact hf.setExclusion_of_unlocated cfg excluded alsoLine

/-- These reasons are the only ones. -/
theorem Forest.setExclusionByUnderline_eq_lookup_iff {n : UInt32} {error : LookupError} :
    db.setExclusionByUnderline cfg u x n excluded = .error (.lookup error) ↔
      db.Unaddressed u x n error := by
  constructor
  · intro h
    rcases hf.addressed_or_unaddressed u x n with ⟨y, ⟨t⟩, ⟨t'⟩, hy⟩ | ⟨error', herr⟩
    · rw [hf.setExclusionByUnderline_eq cfg excluded t hy] at h
      exact absurd h (hf.setExclusion_ne_lookup cfg excluded false t' error)
    · cases h.symm.trans (hf.setExclusionByUnderline_of_unaddressed cfg excluded herr)
      exact herr
  · exact hf.setExclusionByUnderline_of_unaddressed cfg excluded

/-- An exclusion that is carried out toggles its target. -/
theorem Target.toggled (t : db.Target u x)
    (h : db.setExclusion cfg u x excluded alsoLine = .ok (o, db')) :
    t.Toggled cfg excluded alsoLine o db' := by
  rcases hf.setExclusion_of_target cfg excluded alsoLine t with
    ⟨o', db₁, hok, htoggled⟩ | ⟨fault, herr, -⟩
  · cases h.symm.trans hok
    exact htoggled
  · cases h.symm.trans herr

/-- An exclusion that is carried out had a target, and toggled it. -/
theorem Forest.toggled_of_setExclusion
    (h : db.setExclusion cfg u x excluded alsoLine = .ok (o, db')) :
    ∃ t : db.Target u x, t.Toggled cfg excluded alsoLine o db' := by
  rcases hf.target_or_unlocated u x with ⟨⟨t⟩⟩ | ⟨error, herr⟩
  · exact ⟨t, t.toggled hf h⟩
  · cases (hf.setExclusion_of_unlocated cfg excluded alsoLine herr).symm.trans h

/-- An exclusion by number that is carried out is one of the node that was found. -/
theorem Forest.found_of_setExclusionByUnderline {n : UInt32}
    (h : db.setExclusionByUnderline cfg u x n excluded = .ok (o, db')) :
    ∃ y, db.findByUnderline x n = .ok y ∧ db.setExclusion cfg u y excluded false = .ok (o, db') := by
  rcases hf.addressed_or_unaddressed u x n with ⟨y, ⟨t⟩, -, hy⟩ | ⟨error, herr⟩
  · rw [hf.setExclusionByUnderline_eq cfg excluded t hy] at h
    exact ⟨y, hy, h⟩
  · cases (hf.setExclusionByUnderline_of_unaddressed cfg excluded herr).symm.trans h

end Answers

end Database

end LogicCoverage
