import LogicCoverage.Proofs.Capacity
import LogicCoverage.Proofs.Evidence
import LogicCoverage.Proofs.Fixpoint

/-!
# More evidence

A database may show all that another one shows of the same nodes, and more. Then every point that was
hit stays hit, and nothing else about points changes. Hence totals stay, what was covered stays
covered, fewer points need their exclusion, and no row is reported that was not reported before. No
node awaits a number that did not await one, so that an idle tree stays idle.
-/

namespace LogicCoverage

/-! ## Databases that show more -/

/-- Every bit that is set in the first mask is set in the second one, which has the same width and as
many words. -/
structure BitMask.Within (m m' : BitMask) : Prop where
  width : m'.width = m.width
  size : m'.words.size = m.words.size
  get {bit : UInt32} : m.get bit = .ok true → m'.get bit = .ok true

/-- Where no word is lacking, nothing more can be set than every bit. -/
theorem BitMask.within_ones {m : BitMask} (h : m.words.size = wordCount m.width) :
    m.Within (.ones m.width) where
  width := rfl
  size := (size_words_ones m.width).trans h.symm
  get {bit} hbit := by
    by_cases hlt : bit < m.width
    · rw [get_ones, decide_eq_true hlt]
    · rw [get_of_width_le (UInt32.not_lt.mp hlt)] at hbit
      cases hbit

/-- The second history shows all that the first one shows. -/
def BitHistory.Within (h h' : BitHistory) : Prop := ∀ o : Observation, (o.mask h).Within (o.mask h')

/-- The second node shows all that the first one shows; it has the same shape, and is excluded if the
first one is. -/
structure Expression.SeenWithin (e e' : Expression) : Prop extends e.SameShape e' where
  excluded : e'.excluded = e.excluded
  flag (o : Observation) : o.flag e = true → o.flag e' = true
  history : Option.Rel BitHistory.Within e.history e'.history

/-- The second database shows all that the first one shows, of the same nodes in the same
statements. -/
structure Database.SeenWithin (db db' : Database) : Prop where
  size : db'.exprs.size = db.exprs.size
  expr? (id : ExprId) : Option.Rel Expression.SeenWithin (db.expr? id) (db'.expr? id)
  stmts : db'.stmts = db.stmts

namespace Database.SeenWithin

variable {db db' : Database} (h : db.SeenWithin db')

include h

/-- More evidence comes with the same shape. -/
theorem sameShape : db.SameShape db' where
  size := h.size
  expr? id := by
    have hid := h.expr? id
    generalize db.expr? id = x at hid
    generalize db'.expr? id = x' at hid
    cases hid with
    | none => exact .none
    | some hseen => exact .some hseen.toSameShape

/-- More evidence comes with the same flags. -/
theorem flagged : db'.flagged = db.flagged := by
  funext id
  have hid := h.expr? id
  rw [Database.flagged, Database.flagged]
  generalize db.expr? id = x at hid
  generalize db'.expr? id = x' at hid
  cases hid with
  | none => rfl
  | some hseen => exact hseen.excluded

theorem stmt? (id : StmtId) : db'.stmt? id = db.stmt? id := by
  rw [Database.stmt?, h.stmts, Database.stmt?]

/-- Every node is seen within the one at the same id. -/
theorem exists_expr? {id : ExprId} {e : Expression} (he : db.expr? id = some e) :
    ∃ e', db'.expr? id = some e' ∧ e.SeenWithin e' := by
  have hid := h.expr? id
  rw [he] at hid
  generalize hx : db'.expr? id = x at hid
  cases hid with
  | some hseen => exact ⟨_, rfl, hseen⟩

end Database.SeenWithin

/-! ## Points -/

/-- The second point is hit if the first one is, and is the same otherwise. -/
structure Point.Within (p p' : Point) : Prop where
  same : p' = { p with hit := p'.hit }
  hit : p.hit = true → p'.hit = true

namespace Point.Within

variable {p p' : Point} (h : p.Within p')

include h

theorem excluded : p'.excluded = p.excluded := by rw [h.same]

theorem site : p'.site = p.site := by rw [h.same]

/-- What is covered stays so with more evidence. -/
theorem covered (hp : p.covered = true) : p'.covered = true := by
  rw [Point.covered, Bool.or_eq_true] at *
  rw [h.excluded]
  exact hp.imp_left h.hit

/-- What is missing with more evidence was missing before. -/
theorem missing (hp : p'.missing = true) : p.missing = true := by
  rw [Point.missing, Bool.not_eq_true'] at *
  rw [Bool.eq_false_iff] at *
  exact fun hcovered => hp (h.covered hcovered)

/-- What is waived with more evidence was waived before. -/
theorem waived (hp : p'.waived = true) : p.waived = true := by
  rw [Point.waived, Bool.and_eq_true, Bool.not_eq_true'] at *
  rw [h.excluded, Bool.eq_false_iff] at hp
  exact ⟨hp.1, Bool.eq_false_iff.mpr fun hhit => hp.2 (h.hit hhit)⟩

end Point.Within

/-- Related lists, counted by properties of which one implies the other. -/
theorem countP_le_of_forall₂ {α β : Type} {R : α → β → Prop} {p : α → Bool} {q : β → Bool}
    (hpq : ∀ a b, R a b → p a = true → q b = true) {as : List α} {bs : List β}
    (h : List.Forall₂ R as bs) : as.countP p ≤ bs.countP q := by
  induction h with
  | nil => exact le_refl _
  | @cons a b as bs hab _ ih =>
    rw [List.countP_cons, List.countP_cons]
    cases ha : p a with
    | true =>
      rw [if_pos rfl, if_pos (hpq a b hab ha)]
      exact Nat.succ_le_succ ih
    | false =>
      rw [if_neg Bool.false_ne_true]
      exact Nat.le_add_right_of_le ih

/-- More evidence leaves points at their sites. -/
theorem map_site_of_forall₂ {points points' : List Point}
    (h : List.Forall₂ Point.Within points points') :
    points'.map Point.site = points.map Point.site := by
  induction h with
  | nil => rfl
  | cons hp _ ih => rw [List.map_cons, List.map_cons, hp.site, ih]

/-- If points still miss something, they missed something before. -/
theorem any_missing_of_forall₂ {points points' : List Point}
    (h : List.Forall₂ Point.Within points points') (hmissing : points'.any Point.missing = true) :
    points.any Point.missing = true := by
  rw [List.any_eq_true, ← List.countP_pos_iff] at *
  exact hmissing.trans_le (countP_le_of_forall₂ (fun _ _ hp => hp.missing) h.flip)

namespace TreeCounts.Counts

variable {c c' : TreeCounts} {points points' : List Point}

/-- What counts come to when more points are hit. -/
theorem within (hc : c.Counts points) (hc' : c'.Counts points')
    (h : List.Forall₂ Point.Within points points') :
    c'.total = c.total ∧ c.hit ≤ c'.hit ∧ c'.excluded ≤ c.excluded := by
  refine ⟨UInt32.toNat_inj.mp ?_, UInt32.le_iff_toNat_le.mpr ?_, UInt32.le_iff_toNat_le.mpr ?_⟩
  · rw [hc'.total, hc.total, h.length_eq]
  · rw [hc.hit, hc'.hit]
    exact countP_le_of_forall₂ (fun _ _ hp => hp.covered) h
  · rw [hc.excluded, hc'.excluded]
    exact countP_le_of_forall₂ (fun _ _ hp => hp.waived) h.flip

end TreeCounts.Counts

/-! ## Evidence -/

/-- A bit of the second result is set if it is in the first one. -/
def Implies (value value' : Bool) : Prop := value = true → value' = true

/-- A mask that holds more is read wherever the other one is, and shows what that one shows. -/
theorem BitMask.Within.get_yields {m m' : BitMask} (h : m.Within m') (bit : UInt32) :
    Checked.Yields Implies (m.get bit) (m'.get bit) := by
  intro value hvalue
  obtain ⟨value', hvalue'⟩ : ∃ value', m'.get bit = .ok value' := by
    rw [BitMask.get] at hvalue ⊢
    rw [h.width]
    split at hvalue <;> rename_i hbit
    · exact ⟨false, if_pos hbit⟩
    · split at hvalue
      · rename_i word hword
        have hlt : wordIndex bit < m'.words.size := by
          rw [h.size]
          exact (Array.getElem?_eq_some_iff.mp hword).1
        exact ⟨_, by rw [if_neg hbit, Array.getElem?_eq_getElem hlt]⟩
      · cases hvalue
  refine ⟨value', hvalue', ?_⟩
  rintro rfl
  exact Except.ok.inj (hvalue'.symm.trans (h.get hvalue))

/-- More evidence of a kind covers more points, at the same sites and bits. -/
theorem Evidence.points_within {ev ev' : Evidence} (hscalar : ev.scalar = true → ev'.scalar = true)
    (hbit : ∀ b, Checked.Yields Implies (ev.bit b) (ev'.bit b)) (kind : PointKind) (site : ExprId)
    (excluded : Bool) (width : Option UInt32) :
    Checked.Yields (List.Forall₂ Point.Within) (ev.points kind site excluded width)
      (ev'.points kind site excluded width) := by
  cases width with
  | none => exact .ok (.cons ⟨rfl, hscalar⟩ .nil)
  | some width =>
    rw [points, points, Checked.tabulate_eq_mapM, Checked.tabulate_eq_mapM]
    exact .mapM fun n _ => (hbit _).bind fun hit hit' himp => .ok ⟨rfl, himp⟩

namespace Expression.SeenWithin

variable {e e' : Expression} (h : e.SeenWithin e')

include h

/-- The bits of an observation are read with more evidence if they were before. -/
theorem mask_yields (id : ExprId) (o : Observation) (b : UInt32) :
    Checked.Yields Implies (do (o.mask (← e.requireHistory id)).get b)
      (do (o.mask (← e'.requireHistory id)).get b) := by
  have hhistory := h.history
  rw [requireHistory, requireHistory]
  generalize e.history = x at hhistory
  generalize e'.history = x' at hhistory
  cases hhistory with
  | none =>
    intro value hvalue
    cases hvalue
  | some hwithin => exact (hwithin o).get_yields b

/-- The points that a node has of one kind, with more evidence. -/
theorem points_within (id : ExprId) (isOperand : Bool) (kind : PointKind) (site : ExprId)
    (excluded : Bool) (width : Option UInt32) :
    Checked.Yields (List.Forall₂ Point.Within)
      ((Evidence.ofKind id e isOperand kind).points kind site excluded width)
      ((Evidence.ofKind id e' isOperand kind).points kind site excluded width) := by
  cases isOperand with
  | false =>
    exact Evidence.points_within (h.flag _) (h.mask_yields id _) kind site excluded width
  | true =>
    refine Evidence.points_within (h.flag _) (fun b => ?_) kind site excluded width
    change Checked.Yields Implies (if 1 < e.width ∧ b < e.width then _ else _)
      (if 1 < e'.width ∧ b < e'.width then _ else _)
    rw [h.width]
    split
    · exact h.mask_yields id _ b
    · exact .ok (h.flag _)

end Expression.SeenWithin

/-! ## Rows -/

/-- A row without the number of its site. -/
def Row.unnumbered (row : Row) : Row := { row with underline := none }

namespace Database

variable {db db' : Database} {cfg : ScoringConfig}

/-- A point that is no longer missing takes its row away. -/
theorem gaps_of_forall₂ {points points' : List Point}
    (h : List.Forall₂ Point.Within points points') (n : ExprId) :
    (((points'.filter Point.missing).map (db'.gap n)).map Row.unnumbered).Sublist
      (((points.filter Point.missing).map (db.gap n)).map Row.unnumbered) := by
  induction h with
  | nil => exact .slnil
  | @cons p p' points points' hp _ ih =>
    have hrow : (db'.gap n p').unnumbered = (db.gap n p).unnumbered := by
      rw [hp.same]
      rfl
    cases hmissing' : p'.missing with
    | true =>
      rw [List.filter_cons_of_pos hmissing', List.filter_cons_of_pos (hp.missing hmissing')]
      simp only [List.map_cons, hrow]
      exact ih.cons_cons _
    | false =>
      rw [List.filter_cons_of_neg (Bool.eq_false_iff.mp hmissing')]
      cases hmissing : p.missing with
      | true =>
        rw [List.filter_cons_of_pos hmissing]
        exact ih.cons _
      | false =>
        rw [List.filter_cons_of_neg (Bool.eq_false_iff.mp hmissing)]
        exact ih

namespace SeenWithin

variable (h : db.SeenWithin db')

include h

/-- Likewise where the node is found by a walk. -/
theorem pointsOf_within {id : ExprId} {e e' : Expression} (hseen : e.SeenWithin e')
    (kind : PointKind) (site : ExprId) (excluded : Bool) :
    Checked.Yields (List.Forall₂ Point.Within) (db.pointsOf cfg id e kind site excluded)
      (db'.pointsOf cfg id e' kind site excluded) := by
  have hoperand : e'.operandOf site kind = e.operandOf site kind := by
    cases kind with
    | leftFalse | leftTrue => exact hseen.left
    | rightFalse | rightTrue => exact hseen.right
    | _ => rfl
  rw [pointsOf, pointsOf, hoperand, hseen.bitwiseWidth]
  cases e.operandOf site kind with
  | none => exact hseen.points_within id false kind site excluded _
  | some o =>
    intro points hpoints
    obtain ⟨eo, heo, hpoints⟩ := bind_eq_ok_iff.mp hpoints
    obtain ⟨eo', heo', hseeno⟩ := h.exists_expr? (db.expr_eq_ok_iff.mp heo)
    obtain ⟨points', hpoints', hall⟩ :=
      hseeno.points_within o true kind site excluded _ points hpoints
    exact ⟨points', bind_eq_ok_iff.mpr ⟨eo', db'.expr_eq_ok_iff.mpr heo', hpoints'⟩, hall⟩

variable (hf : db.Forest) (hf' : db'.Forest)

include hf hf'

/-- More evidence mutes the same nodes. -/
theorem muted : db'.muted = db.muted := h.sameShape.muted h.flagged hf hf'

/-- The points that are scored for a node, with more evidence. -/
theorem scoredPoints_within {id : ExprId} {e : Expression} (he : db.expr? id = some e) :
    Checked.Yields (Option.Rel (List.Forall₂ Point.Within)) (db.scoredPoints id cfg)
      (db'.scoredPoints id cfg) := by
  obtain ⟨e', he', hseen⟩ := h.exists_expr? he
  exact scoredPoints_yields (h.pointsOf_within hseen) he he' hseen.toSameShape
    (fun hps hqs => List.rel_append hps hqs) h.sameShape h.flagged .nil rfl rfl hf hf'

/-- The points of a node can still be told, and those that were hit are. -/
theorem points_within {id : ExprId} {e : Expression} (he : db.expr? id = some e)
    (hs : db.Scorable cfg id) :
    db'.Scorable cfg id ∧ List.Forall₂ Point.Within (db.points cfg id) (db'.points cfg id) := by
  obtain ⟨o, ho⟩ := hs
  obtain ⟨o', ho', hrel⟩ := h.scoredPoints_within hf hf' he o ho
  refine ⟨⟨o', ho'⟩, ?_⟩
  rw [points_of_scoredPoints ho, points_of_scoredPoints ho']
  cases hrel with
  | none => exact .nil
  | some hall => exact hall

section Tree

variable {root : ExprId} {er : Expression} (hr : db.expr? root = some er)
  (hs : ∀ n ∈ db.nodes root, db.Scorable cfg n)

include hr hs

theorem points_within_of_mem {n : ExprId} (hn : n ∈ db.nodes root) :
    db'.Scorable cfg n ∧ List.Forall₂ Point.Within (db.points cfg n) (db'.points cfg n) := by
  obtain ⟨en, hen⟩ := hf.expr?_of_mem_nodes hr hn
  exact h.points_within hf hf' hen (hs n hn)

/-- What can be scored can be scored with more evidence. -/
theorem scorable : ∀ n ∈ db'.nodes root, db'.Scorable cfg n := by
  intro n hn
  rw [h.sameShape.nodes] at hn
  exact (h.points_within_of_mem hf hf' hr hs hn).1

/-- The points of a tree, with more evidence. -/
theorem treePoints_within :
    List.Forall₂ Point.Within (db.treePoints cfg root) (db'.treePoints cfg root) := by
  rw [treePoints, treePoints, units, units, h.sameShape.nodes]
  apply List.rel_flatten
  rw [List.forall₂_map_left_iff, List.forall₂_map_right_iff, List.forall₂_same]
  exact fun n hn => (h.points_within_of_mem hf hf' hr hs hn).2

/-- With more evidence there are fewer rows, in the same order. -/
theorem treeGaps_within :
    ((db'.treeGaps cfg root).map Row.unnumbered).Sublist
      ((db.treeGaps cfg root).map Row.unnumbered) := by
  rw [treeGaps, treeGaps, h.sameShape.nodes, List.map_flatMap, List.map_flatMap]
  apply List.Sublist.flatMap_right
  exact fun n hn => gaps_of_forall₂ (h.points_within_of_mem hf hf' hr hs hn).2 n

/-! ## Numbers -/

section Numbers

variable (hn : ∀ x ∈ db.nodes root, db'.number? x = db.number? x)

include hn

/-- Less is missing, so that fewer nodes await a number. -/
theorem awaiting_subset : db'.awaiting cfg root ⊆ db.awaiting cfg root := by
  obtain ⟨er', hr', -⟩ := h.exists_expr? hr
  intro x hx
  obtain ⟨hm, hnone, n, hmem, hmissing, hsite⟩ := (mem_awaiting hf' hr').mp hx
  rw [h.sameShape.nodes] at hmem
  have hwithin := (h.points_within_of_mem hf hf' hr hs hmem).2
  rw [sites, map_site_of_forall₂ hwithin] at hsite
  rw [← List.any_eq_true] at hmissing
  rw [h.muted hf hf'] at hm
  rw [hn x (hf.site_mem_nodes hr hmem hsite)] at hnone
  have hmissing := List.any_eq_true.mp (any_missing_of_forall₂ hwithin hmissing)
  exact (mem_awaiting hf hr).mpr ⟨hm, hnone, n, hmem, hmissing, hsite⟩

/-- With more evidence no more numbers are needed. -/
theorem not_crowded (hroom : ¬ db.Crowded cfg root) : ¬ db'.Crowded cfg root := by
  obtain ⟨er', hr', -⟩ := h.exists_expr? hr
  have hhighest : Underlining.highest db' (db'.nodes root) =
      Underlining.highest db (db.nodes root) := by
    rw [h.sameShape.nodes, Underlining.highest_congr hn]
  have hlen : (db'.awaiting cfg root).length ≤ (db.awaiting cfg root).length :=
    (List.subperm_of_subset ((hf'.nodup_nodes hr').filter _)
      (h.awaiting_subset hf hf' hr hs hn)).length_le
  rw [Crowded] at *
  rw [hhighest]
  omega

/-- A tree that is idle stays so with more evidence. -/
theorem idle (hidle : db.Idle cfg root) : db'.Idle cfg root where
  awaiting := by
    have hsub := h.awaiting_subset hf hf' hr hs hn
    rw [hidle.awaiting] at hsub
    exact List.subset_nil.mp hsub
  room {x k} hx hk := by
    rw [h.sameShape.nodes] at hx
    exact hidle.room hx ((hn x hx).symm.trans hk)
  hushed {n x} hmem hx hm := by
    rw [h.sameShape.nodes] at hmem
    rw [sites, map_site_of_forall₂ (h.points_within_of_mem hf hf' hr hs hmem).2] at hx
    rw [h.muted hf hf'] at hm
    rw [hn x (hf.site_mem_nodes hr hmem hx)]
    exact hidle.hushed hmem hx hm

end Numbers

end Tree

end SeenWithin

/-! ## Scoring with more evidence -/

/-- Two consistent databases have the same nodes, and the second one shows all that the first one
shows. Where a statement of the first can be scored, the second one's rows are among the first one's,
in their order; its points are as many, no fewer are covered, and no more are covered by an exclusion
alone. If its nodes have the same numbers, it can be scored too, and where the first scoring changes
nothing, neither does the second. -/
theorem computeTree_mono (hdb : db.check = .ok ()) (hdb' : db'.check = .ok ())
    (h : db.SeenWithin db') {id : StmtId} {st : Statement} (hs : db.stmt? id = some st)
    (cfg : ScoringConfig) {marks marks' : PassMarks} (hm : ∀ x, marks.counted x = false)
    (hm' : ∀ x, marks'.counted x = false) {counts : TreeCounts} {m : PassMarks} {d : Database}
    (hrun : db.computeTree st.root cfg marks = .ok (counts, m, d)) :
    (∃ rows rows', db.statementDetail id cfg = .ok rows ∧ db'.statementDetail id cfg = .ok rows' ∧
      (rows'.map Row.unnumbered).Sublist (rows.map Row.unnumbered)) ∧
    (∀ counts' m' d', db'.computeTree st.root cfg marks' = .ok (counts', m', d') →
      counts'.total = counts.total ∧ counts.hit ≤ counts'.hit ∧
        counts'.excluded ≤ counts.excluded) ∧
    ((∀ x ∈ db.nodes st.root, db'.number? x = db.number? x) →
      ∃ counts' m' d', db'.computeTree st.root cfg marks' = .ok (counts', m', d') ∧
        (d = db → d' = db')) := by
  have hf := forest_of_check hdb
  have hf' := forest_of_check hdb'
  obtain ⟨er, her, -⟩ := hf.root hs
  have hs' : db'.stmt? id = some st := (h.stmt? id).trans hs
  have hscored := hf.scored_of_computeTree hs (fun n _ => hm n) hrun
  have hscorable := h.scorable hf hf' her hscored.scorable
  have hpoints := h.treePoints_within hf hf' her hscored.scorable
  refine ⟨⟨_, _, hf.statementDetail_eq hs hscored.scorable, hf'.statementDetail_eq hs' hscorable,
    h.treeGaps_within hf hf' her hscored.scorable⟩, ?_, fun hn => ?_⟩
  · intro counts' m' d' hrun'
    have hscored' := hf'.scored_of_computeTree hs' (fun n _ => hm' n) hrun'
    exact hscored.counts.within hscored'.counts hpoints
  -- the second scoring could only run out of numbers, but no more nodes await one than did before
  · rcases hf'.computeTree_spec hs' (fun n _ => hm' n) with
      ⟨counts', m', d', hrun', hscored'⟩ | ⟨fault, -, hfail⟩
    · refine ⟨counts', m', d', hrun', fun hd => ?_⟩
      have hidle := hscored.idle hf her
      rw [hd] at hidle
      exact (h.idle hf hf' her hscored.scorable hn hidle).computeTree_eq_self hf' hs'
        (fun n _ => hm' n) hrun'
    · have hfit : (db'.treePoints cfg st.root).length < UInt32.size := by
        rw [← hpoints.length_eq, ← hscored.counts.total]
        exact counts.total.toNat_lt_size
      have hroom := h.not_crowded hf hf' her hscored.scorable hn (hscored.not_crowded hf her)
      exact absurd (hfail.exhausted hscorable hfit).2 hroom

/-- When both bits of the signal are seen, all is shown that can be. -/
theorem wideSignal_within {words : Array UInt64} (h : words.size = BitMask.wordCount 2) :
    (Engine.wideSignal words).SeenWithin (Engine.wideSignal (BitMask.ones 2).words) where
  size := rfl
  expr? id := by
    have hmask : (BitMask.mk 2 words).Within (.ones 2) := BitMask.within_ones h
    rw [expr?, expr?]
    cases id.index.toNat with
    | zero =>
      refine .some ⟨⟨rfl, rfl, rfl, rfl, rfl, rfl⟩, rfl, fun o hflag => ?_, .some fun o => ?_⟩
      · cases o with
        | wasTrue | wasFalse => exact hflag
        | joint left right => cases left <;> cases right <;> exact hflag
      · cases o with
        | wasTrue | wasFalse => exact hmask
        | joint left right => cases left <;> cases right <;> exact hmask
    | succ n => exact .none
  stmts := rfl

/-- The signal was scored with one of its bits seen. When both are seen, the points of the other bit
are hit as well, and the number that the signal has is kept. -/
theorem computeTree_mono_wideSignal :
    (Engine.wideSignal #[1]).check = .ok () ∧
      (Engine.wideSignal (BitMask.ones 2).words).check = .ok () ∧
      (Engine.wideSignal #[1]).SeenWithin (Engine.wideSignal (BitMask.ones 2).words) ∧
      ∃ m m' counts', (Engine.wideSignal #[1]).computeTree ⟨0⟩ ⟨true, true, none⟩ (.new 1) =
          .ok (⟨2, 4, 0⟩, m, Engine.wideSignal #[1]) ∧
        (Engine.wideSignal (BitMask.ones 2).words).computeTree ⟨0⟩ ⟨true, true, none⟩ (.new 1) =
          .ok (counts', m', Engine.wideSignal (BitMask.ones 2).words) ∧
        counts'.total = 4 ∧ 2 ≤ counts'.hit := by
  have hcheck : (Engine.wideSignal #[1]).check = .ok () := by decide
  have hcheck' : (Engine.wideSignal (BitMask.ones 2).words).check = .ok () := by decide
  have hseen : (Engine.wideSignal #[1]).SeenWithin (Engine.wideSignal (BitMask.ones 2).words) :=
    wideSignal_within rfl
  have hfresh : ∀ x, (PassMarks.new 1).counted x = false := PassMarks.counted_new 1
  obtain ⟨m, hrun⟩ : ∃ m, (Engine.wideSignal #[1]).computeTree ⟨0⟩ ⟨true, true, none⟩ (.new 1) =
      .ok (⟨2, 4, 0⟩, m, Engine.wideSignal #[1]) := by
    have hresult : ((Engine.wideSignal #[1]).computeTree ⟨0⟩ ⟨true, true, none⟩ (.new 1)).map
        (fun result => (result.1, result.2.2)) = .ok (⟨2, 4, 0⟩, Engine.wideSignal #[1]) := by
      decide +kernel
    rcases hrun : (Engine.wideSignal #[1]).computeTree ⟨0⟩ ⟨true, true, none⟩ (.new 1) with
      fault | ⟨counts, m, d⟩
    · rw [hrun] at hresult
      cases hresult
    · rw [hrun] at hresult
      cases hresult
      exact ⟨m, rfl⟩
  obtain ⟨-, hcounts, hagain⟩ := computeTree_mono hcheck hcheck' hseen
    (show (Engine.wideSignal #[1]).stmt? ⟨0⟩ = some ⟨⟨0⟩, false⟩ by rfl) ⟨true, true, none⟩ hfresh
    hfresh hrun
  obtain ⟨counts', m', d', hrun', hkept⟩ := hagain (by decide)
  obtain rfl := hkept rfl
  obtain ⟨htotal, hhit, -⟩ := hcounts counts' m' _ hrun'
  exact ⟨hcheck, hcheck', hseen, m, m', counts', hrun, hrun', htotal, hhit⟩

end Database

end LogicCoverage
