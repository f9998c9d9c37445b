import LogicCoverage.Proofs.Points
import LogicCoverage.ScopeScore

/-!
# Scoring looks at no scope

What scopes there are, and what they list, is nothing to the scoring of a tree: under other scopes it
gives the same counts, marks and numbers, or the same fault, and leaves the scopes as they are. Every
step on the way mirrors the step that is taken under the scopes there were.
-/

namespace LogicCoverage

section Mirrored

variable {ε σ τ α : Type} (f : σ → τ)

/-- A loop of which every step is mirrored is mirrored. -/
theorem foldlM_eq_map {step : σ → α → Except ε σ} {step' : τ → α → Except ε τ}
    (h : ∀ s a, step' (f s) a = (step s a).map f) (l : List α) (s : σ) :
    l.foldlM step' (f s) = (l.foldlM step s).map f := by
  induction l generalizing s with
  | nil => rfl
  | cons a l ih =>
    rw [List.foldlM_cons, List.foldlM_cons]
    exact bind_eq_map_of_eq_map (h s a) ih

/-- If a map of states commutes with every step of a walk, it commutes with the walk. -/
theorem Tree.visit_eq_map {step : σ → Expression → Placement → Checked σ}
    {step' : τ → Expression → Placement → Checked τ}
    (h : ∀ s e p, step' (f s) e p = (step s e p).map f) (t : Tree) (depth : UInt32) (above : Bool)
    (s : σ) : t.visit step' depth above (f s) = (t.visit step depth above s).map (Prod.map f id) := by
  induction t generalizing depth above s with
  | empty => rfl
  | broken fault => rfl
  | node id e left right ihl ihr =>
    rw [visit, visit]
    refine bind_eq_map fun leftDepth => ?_
    refine bind_eq_map_of_eq_map (ihl () _ _ s) ?_
    rintro ⟨sl, leftConstant⟩
    refine bind_eq_map fun rightDepth => ?_
    refine bind_eq_map_of_eq_map (ihr () _ _ sl) ?_
    rintro ⟨sr, rightConstant⟩
    exact bind_eq_map_of_eq_map (h sr e _) fun _ => rfl

end Mirrored

/-! ## Points -/

namespace Database

/-- The same nodes and statements under other scopes. -/
def withScopes (db : Database) (scopes : Array Scope) : Database := { db with scopes }

variable (db : Database) (scopes : Array Scope)

@[simp] theorem expr_withScopes : (db.withScopes scopes).expr = db.expr := rfl

@[simp] theorem size_withScopes : (db.withScopes scopes).exprs.size = db.exprs.size := rfl

/-- No walk down meets a scope. -/
theorem descend_withScopes : (db.withScopes scopes).descend = db.descend := by
  funext fuel o
  induction fuel generalizing o with
  | zero => cases o <;> simp [descend]
  | succ fuel ih =>
    cases o with
    | none => simp [descend]
    | some id => simp only [descend, ih, expr_withScopes]

@[simp] theorem tree_withScopes : (db.withScopes scopes).tree = db.tree := by
  funext id
  rw [tree, tree, descend_withScopes, size_withScopes]

/-- No walk up meets a scope. -/
theorem climb_withScopes : (db.withScopes scopes).climb = db.climb := by
  funext fuel link
  induction fuel generalizing link with
  | zero => cases link <;> simp [climb]
  | succ fuel ih => cases link <;> simp only [climb, ih, expr_withScopes]

theorem excludedWithin_withScopes : (db.withScopes scopes).excludedWithin = db.excludedWithin := by
  funext root operand
  simp only [excludedWithin, lineage, climb_withScopes, expr_withScopes, size_withScopes]

theorem operandPoints_withScopes : (db.withScopes scopes).operandPoints = db.operandPoints := by
  funext root isAnd excluded width operand
  rw [operandPoints, operandPoints, excludedWithin_withScopes]
  rfl

theorem chainPoints_withScopes : (db.withScopes scopes).chainPoints = db.chainPoints := by
  funext root cfg excluded
  simp only [chainPoints, chainOperands, operandPoints_withScopes, tree_withScopes, expr_withScopes]

/-- The points of a node do not depend on the scopes. -/
theorem nodePoints_withScopes : (db.withScopes scopes).nodePoints = db.nodePoints := by
  funext id cfg excluded
  rw [nodePoints, nodePoints, chainPoints_withScopes]
  rfl

end Database

/-! ## Numbers -/

namespace Underlining

def withScopes (u : Underlining) (scopes : Array Scope) : Underlining :=
  { u with db := u.db.withScopes scopes }

variable (u : Underlining) (scopes : Array Scope)

/-- No visit reads or writes a scope. -/
theorem visit_withScopes (missing : Bool) (p : Point) :
    visit missing (u.withScopes scopes) p = (visit missing u p).map (·.withScopes scopes) := by
  refine bind_eq_map fun number => ?_
  cases p.excluded with
  | true => rfl
  | false =>
    cases missing && number.isNone with
    | true => exact bind_eq_map fun next => rfl
    | false => rfl

theorem unit_withScopes (points : List Point) :
    unit (u.withScopes scopes) points = (unit u points).map (·.withScopes scopes) := by
  rw [unit, unit]
  exact foldlM_eq_map (·.withScopes scopes) (fun u p => u.visit_withScopes scopes _ p) _ u

/-- The first number does not depend on the scopes. -/
theorem start_withScopes (db : Database) (scopes : Array Scope) (nodes : List ExprId) :
    start (db.withScopes scopes) nodes = (start db nodes).map (·.withScopes scopes) :=
  bind_eq_map fun _ => rfl

end Underlining

/-! ## Trees -/

def TreeScore.withScopes (s : TreeScore) (scopes : Array Scope) : TreeScore :=
  { s with underlining := s.underlining.withScopes scopes }

/-- A step of scoring does the same under other scopes. -/
theorem TreeScore.step_withScopes (db : Database) (cfg : ScoringConfig) (scopes : Array Scope)
    (s : TreeScore) (e : Expression) (p : Placement) :
    step (db.withScopes scopes) cfg (s.withScopes scopes) e p =
      (step db cfg s e p).map (·.withScopes scopes) := by
  rw [step, step, Database.nodePoints_withScopes]
  change (if p.isScored e cfg && !s.marks.counted p.id then _ else _) = _
  cases p.isScored e cfg && !s.marks.counted p.id with
  | false => rfl
  | true =>
    refine bind_eq_map fun points => ?_
    cases points with
    | none => rfl
    | some points =>
      refine bind_eq_map fun counts => ?_
      exact bind_eq_map_of_eq_map (s.underlining.unit_withScopes scopes points) fun _ => rfl

namespace Database

variable (db : Database) (cfg : ScoringConfig) (scopes : Array Scope)

/-- A tree is scored alike under all scopes. -/
theorem scoreTree_withScopes (root : ExprId) (marks : PassMarks) :
    (db.withScopes scopes).scoreTree root cfg marks =
      (db.scoreTree root cfg marks).map (·.withScopes scopes) := by
  rw [scoreTree, scoreTree, tree_withScopes]
  refine bind_eq_map fun nodes => ?_
  refine bind_eq_map_of_eq_map (Underlining.start_withScopes db scopes nodes) fun underlining => ?_
  exact bind_eq_map_of_eq_map (Tree.visit_eq_map _ (TreeScore.step_withScopes db cfg scopes)
    (db.tree root) 0 false ⟨.zero, marks, underlining⟩) fun _ => rfl

/-- Scoring a tree under other scopes gives the same counts, marks and numbers. -/
theorem computeTree_withScopes (root : ExprId) (marks : PassMarks) :
    (db.withScopes scopes).computeTree root cfg marks = (db.computeTree root cfg marks).map
      fun result => (result.1, result.2.1, result.2.2.withScopes scopes) :=
  bind_eq_map_of_eq_map (db.scoreTree_withScopes cfg scopes root marks) fun _ => rfl

end Database

/-! ## Listed statements -/

def ScopeScore.withScopes (s : ScopeScore) (scopes : Array Scope) : ScopeScore :=
  { s with db := s.db.withScopes scopes }

/-- A statement is scored alike under all scopes. -/
theorem ScopeScore.step_withScopes (cfg : ScoringConfig) (scopes : Array Scope) (s : ScopeScore)
    (id : StmtId) :
    step cfg (s.withScopes scopes) id = (step cfg s id).map (·.withScopes scopes) := by
  refine bind_eq_map fun stmt => ?_
  change (if s.marks.counted stmt.root then _ else _) = _
  cases s.marks.counted stmt.root with
  | true => rfl
  | false =>
    refine bind_eq_map_of_eq_map (s.db.computeTree_withScopes cfg scopes stmt.root s.marks) ?_
    rintro ⟨counts, marks, db⟩
    refine bind_eq_map fun comb => ?_
    refine bind_eq_map fun root => ?_
    exact bind_eq_map fun stat => rfl

end LogicCoverage
