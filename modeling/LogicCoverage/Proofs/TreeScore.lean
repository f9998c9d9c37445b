import LogicCoverage.Detail
import LogicCoverage.Proofs.Numbering
import LogicCoverage.Proofs.Points
import LogicCoverage.TreeScore

/-!
# The score of a tree

A pass over a tree that has counted none of its nodes takes the points of every node, as they are
found from the node alone: it adds up their numbers, and it renews the underline ids of their sites.
-/

namespace LogicCoverage

namespace Counter

/-- A sum fails only if it does not fit. -/
theorem add_error {a : UInt32} {n : Nat} {fault : Fault} (h : add a n = .error fault) :
    fault = .counterOverflow ∧ UInt32.size ≤ a.toNat + n := by
  unfold add addOr at h
  split at h <;> cases h
  exact ⟨rfl, by omega⟩

theorem add_three_error {β : Type} {a b c : UInt32} {l m n : Nat} {k : UInt32 → UInt32 → UInt32 → β}
    {fault : Fault}
    (h : (do
      let x ← add a l
      let y ← add b m
      let z ← add c n
      return k x y z) = .error fault) :
    fault = .counterOverflow ∧
      (UInt32.size ≤ a.toNat + l ∨ UInt32.size ≤ b.toNat + m ∨ UInt32.size ≤ c.toNat + n) := by
  rcases bind_eq_error_iff.mp h with hx | ⟨x, -, h⟩
  · exact ⟨(add_error hx).1, .inl (add_error hx).2⟩
  · rcases bind_eq_error_iff.mp h with hy | ⟨y, -, h⟩
    · exact ⟨(add_error hy).1, .inr (.inl (add_error hy).2)⟩
    · rcases bind_eq_error_iff.mp h with hz | ⟨z, -, h⟩
      · exact ⟨(add_error hz).1, .inr (.inr (add_error hz).2)⟩
      · cases h

end Counter

/-! ## Counts of points -/

/-- A point is missing if it is neither hit nor excluded. -/
theorem Point.missing_iff {p : Point} : p.missing = true ↔ p.hit = false ∧ p.excluded = false := by
  simp [Point.missing, Point.covered]

/-- What is waived is covered. -/
theorem Point.countP_waived_le (points : List Point) :
    points.countP Point.waived ≤ points.countP Point.covered := by
  apply List.countP_mono_left
  intro p _ hp
  rw [Point.waived, Bool.and_eq_true] at hp
  rw [Point.covered, hp.1, Bool.or_true]

namespace TreeCounts

/-- The counts are those of a list of points. -/
structure Counts (c : TreeCounts) (points : List Point) : Prop where
  hit : c.hit.toNat = points.countP Point.covered
  total : c.total.toNat = points.length
  excluded : c.excluded.toNat = points.countP Point.waived

variable {a c c' : TreeCounts} {points more : List Point}

theorem zero_counts : zero.Counts [] := ⟨rfl, rfl, rfl⟩

/-- Points have one count only. -/
theorem Counts.unique (h : c.Counts points) (h' : c'.Counts points) : c = c' := by
  cases c
  cases c'
  rw [mk.injEq]
  exact ⟨UInt32.toNat_inj.mp (h.hit.trans h'.hit.symm),
    UInt32.toNat_inj.mp (h.total.trans h'.total.symm),
    UInt32.toNat_inj.mp (h.excluded.trans h'.excluded.symm)⟩

/-- Points are added to all three counts, if these fit. -/
theorem addPoints_eq_ok_iff :
    a.addPoints more = .ok c ↔
      c.hit.toNat = a.hit.toNat + more.countP Point.covered ∧
        c.total.toNat = a.total.toNat + more.length ∧
          c.excluded.toNat = a.excluded.toNat + more.countP Point.waived := by
  simp only [addPoints, bind_eq_ok_iff, Counter.add_eq_ok_iff, pure, Except.pure, Except.ok.injEq]
  constructor
  · rintro ⟨hit, hh, total, ht, excluded, he, rfl⟩
    exact ⟨hh, ht, he⟩
  · rintro ⟨hh, ht, he⟩
    exact ⟨_, hh, _, ht, _, he, rfl⟩

theorem addPoints_nil (c : TreeCounts) : c.addPoints [] = .ok c :=
  addPoints_eq_ok_iff.mpr ⟨rfl, rfl, rfl⟩

/-- Counts of some points and of more are counts of all of them. -/
theorem Counts.addPoints (h : a.Counts points) (hc : a.addPoints more = .ok c) :
    c.Counts (points ++ more) := by
  obtain ⟨hh, ht, he⟩ := addPoints_eq_ok_iff.mp hc
  refine ⟨?_, ?_, ?_⟩
  · rw [hh, h.hit, List.countP_append]
  · rw [ht, h.total, List.length_append]
  · rw [he, h.excluded, List.countP_append]

/-- A sum leaves the range only if there are too many points. -/
theorem Counts.addPoints_error (h : a.Counts points) {fault : Fault}
    (hc : a.addPoints more = .error fault) :
    fault = .counterOverflow ∧ UInt32.size ≤ (points ++ more).length := by
  have hcov : (points ++ more).countP Point.covered ≤ (points ++ more).length :=
    List.countP_le_length
  have hwai : (points ++ more).countP Point.waived ≤ (points ++ more).length :=
    List.countP_le_length
  rw [List.countP_append, ← h.hit] at hcov
  rw [List.countP_append, ← h.excluded] at hwai
  obtain ⟨rfl, hsize⟩ := Counter.add_three_error hc
  rw [List.length_append, ← h.total] at *
  exact ⟨rfl, by omega⟩

end TreeCounts

/-! ## A pass over nodes -/

/-- Nothing but some of the given nodes was marked. -/
structure Marked (nodes : List ExprId) (marks marks' : PassMarks) : Prop where
  kept {x : ExprId} : marks.counted x = true → marks'.counted x = true
  within {x : ExprId} : marks'.counted x = true → marks.counted x = true ∨ x ∈ nodes

namespace Marked

variable {marks marks' marks₂ : PassMarks} {n : ExprId} {nodes : List ExprId}

theorem refl (nodes : List ExprId) (marks : PassMarks) : Marked nodes marks marks :=
  ⟨id, .inl⟩

/-- A mark counts its node and no other. -/
theorem mark (marks : PassMarks) (n : ExprId) : Marked [n] marks (marks.mark n) where
  kept h := by rw [PassMarks.counted_mark, h, Bool.true_or]
  within h := by
    rw [PassMarks.counted_mark, Bool.or_eq_true, decide_eq_true_eq] at h
    exact h.imp id fun hx => List.mem_singleton.mpr hx

/-- Marks of a node and then of others are marks of all of them. -/
theorem cons (h : Marked [n] marks marks') (h' : Marked nodes marks' marks₂) :
    Marked (n :: nodes) marks marks₂ where
  kept hx := h'.kept (h.kept hx)
  within hx := by
    rcases h'.within hx with hx | hx
    · rcases h.within hx with hx | hx
      · exact .inl hx
      · exact .inr (List.mem_cons.mpr (.inl (List.mem_singleton.mp hx)))
    · exact .inr (List.mem_cons_of_mem n hx)

/-- Marks of one node leave all others as they were. -/
theorem uncounted (h : Marked [n] marks marks') (hn : n ∉ nodes)
    (hm : ∀ x ∈ nodes, marks.counted x = false) : ∀ x ∈ nodes, marks'.counted x = false := by
  intro x hx
  rw [Bool.eq_false_iff]
  intro hcounted
  rcases h.within hcounted with hold | hxn
  · rw [hm x hx] at hold
    cases hold
  · exact hn (List.mem_singleton.mp hxn ▸ hx)

end Marked

namespace Database

variable {db : Database} {cfg : ScoringConfig} {s s' : TreeScore}

/-- What a pass does at a node that it has not counted. -/
theorem Forest.visitNode_step (hf : db.Forest) {id : ExprId} {e : Expression}
    (h : db.expr? id = some e) (hm : s.marks.counted id = false) :
    ∃ marks : PassMarks, Marked [id] s.marks marks ∧
      db.visitNode (TreeScore.step db cfg) s id = do
        let points ← db.scoredPoints id cfg
        let counts ← s.counts.addPoints (points.getD [])
        let underlining ← s.underlining.unit (points.getD [])
        return ⟨counts, marks, underlining⟩ := by
  have nothing (marks : PassMarks) : (do
      let counts ← s.counts.addPoints []
      let underlining ← s.underlining.unit []
      return ⟨counts, marks, underlining⟩) = (.ok { s with marks } : Checked TreeScore) := by
    rw [TreeCounts.addPoints_nil]
    rfl
  rw [hf.visitNode_eq h, hf.scoredPoints_eq h, TreeScore.step, pointsAt]
  change ∃ marks : PassMarks, _ ∧
    (if (db.place id).isScored e cfg && !s.marks.counted id then _ else _) = _
  rw [hm]
  cases (db.place id).isScored e cfg with
  | false =>
    refine ⟨s.marks, .refl [id] s.marks, ?_⟩
    rw [Bool.false_and, if_neg Bool.false_ne_true, if_neg Bool.false_ne_true]
    exact (nothing s.marks).symm
  | true =>
    refine ⟨s.marks.mark id, .mark s.marks id, ?_⟩
    change (db.nodePoints id cfg (db.muted id) >>= _) = (db.nodePoints id cfg (db.muted id) >>= _)
    apply bind_congr
    intro points
    cases points with
    | none => exact (nothing _).symm
    | some points => rfl

/-- A pass over nodes that it has not counted takes the points of all of them. -/
theorem Forest.foldlM_step_ok (hf : db.Forest) {nodes : List ExprId}
    (hex : ∀ n ∈ nodes, ∃ e, db.expr? n = some e) (hnodup : nodes.Nodup)
    (hm : ∀ n ∈ nodes, s.marks.counted n = false) {points : List Point}
    (hc : s.counts.Counts points)
    (h : nodes.foldlM (db.visitNode (TreeScore.step db cfg)) s = .ok s') :
    (∀ n ∈ nodes, db.Scorable cfg n) ∧
      s'.counts.Counts (points ++ (nodes.map (db.points cfg)).flatten) ∧
      (nodes.map (db.points cfg)).foldlM Underlining.unit s.underlining = .ok s'.underlining ∧
      Marked nodes s.marks s'.marks := by
  induction nodes generalizing s points with
  | nil =>
    cases h
    exact ⟨nofun, by simpa using hc, rfl, .refl [] _⟩
  | cons n nodes ih =>
    rw [List.forall_mem_cons] at hex hm
    rw [List.nodup_cons] at hnodup
    obtain ⟨⟨e, he⟩, hex⟩ := hex
    obtain ⟨marks, hmarks, hstep⟩ := hf.visitNode_step he hm.1
    rw [List.foldlM_cons, hstep, bind_eq_ok_iff] at h
    obtain ⟨s₁, h₁, h⟩ := h
    obtain ⟨o, ho, h₁⟩ := bind_eq_ok_iff.mp h₁
    obtain ⟨counts, hcounts, h₁⟩ := bind_eq_ok_iff.mp h₁
    obtain ⟨underlining, hunder, h₁⟩ := bind_eq_ok_iff.mp h₁
    cases h₁
    have hpoints : db.points cfg n = o.getD [] := points_of_scoredPoints ho
    rw [← hpoints] at hcounts hunder
    have hm₁ := hmarks.uncounted hnodup.1 hm.2
    obtain ⟨hscorable, hcounts', hunder', hmarks'⟩ :=
      ih hex hnodup.2 hm₁ (hc.addPoints hcounts) h
    refine ⟨List.forall_mem_cons.mpr ⟨⟨o, ho⟩, hscorable⟩, ?_, ?_, hmarks.cons hmarks'⟩
    · simpa using hcounts'
    · rw [List.map_cons, List.foldlM_cons, hunder]
      exact hunder'

/-- A pass over nodes that it has not counted fails for a node that cannot be scored, for too many
points, or in the renewal of underline ids. -/
theorem Forest.foldlM_step_error (hf : db.Forest) {nodes : List ExprId}
    (hex : ∀ n ∈ nodes, ∃ e, db.expr? n = some e) (hnodup : nodes.Nodup)
    (hm : ∀ n ∈ nodes, s.marks.counted n = false) {points : List Point}
    (hc : s.counts.Counts points) {fault : Fault}
    (h : nodes.foldlM (db.visitNode (TreeScore.step db cfg)) s = .error fault) :
    (∃ n ∈ nodes, db.scoredPoints n cfg = .error fault) ∨
      (fault = .counterOverflow ∧
        UInt32.size ≤ (points ++ (nodes.map (db.points cfg)).flatten).length) ∨
      (nodes.map (db.points cfg)).foldlM Underlining.unit s.underlining = .error fault := by
  induction nodes generalizing s points with
  | nil => cases h
  | cons n nodes ih =>
    rw [List.forall_mem_cons] at hex hm
    rw [List.nodup_cons] at hnodup
    obtain ⟨⟨e, he⟩, hex⟩ := hex
    obtain ⟨marks, hmarks, hstep⟩ := hf.visitNode_step he hm.1
    rw [List.foldlM_cons, hstep] at h
    -- At each node the points come first, then the counts, then the numbers.
    cases ho : db.scoredPoints n cfg with
    | error f =>
      rw [ho] at h
      cases h
      exact .inl ⟨n, List.mem_cons_self, ho⟩
    | ok o =>
      have hpoints : db.points cfg n = o.getD [] := points_of_scoredPoints ho
      rw [ho] at h
      simp only [bind, Except.bind, ← hpoints] at h
      rw [List.map_cons, List.flatten_cons, List.foldlM_cons, ← List.append_assoc]
      cases hcounts : s.counts.addPoints (db.points cfg n) with
      | error f =>
        rw [hcounts] at h
        cases h
        obtain ⟨rfl, hsize⟩ := hc.addPoints_error hcounts
        exact .inr (.inl ⟨rfl, hsize.trans (List.sublist_append_left _ _).length_le⟩)
      | ok counts =>
        cases hunder : s.underlining.unit (db.points cfg n) with
        | error f =>
          rw [hcounts, hunder] at h
          cases h
          exact .inr (.inr rfl)
        | ok underlining =>
          rw [hcounts, hunder] at h
          have hm₁ := hmarks.uncounted hnodup.1 hm.2
          rcases ih hex hnodup.2 hm₁ (hc.addPoints hcounts) h with
            ⟨x, hx, hfault⟩ | hcount | hunder'
          · exact .inl ⟨x, List.mem_cons_of_mem n hx, hfault⟩
          · exact .inr (.inl hcount)
          · exact .inr (.inr hunder')

/-! ## The tree of a root -/

/-- The points of the nodes of a tree, node by node. -/
def units (db : Database) (cfg : ScoringConfig) (root : ExprId) : List (List Point) :=
  (db.nodes root).map (db.points cfg)

/-- All points of a tree. -/
def treePoints (db : Database) (cfg : ScoringConfig) (root : ExprId) : List Point :=
  (db.units cfg root).flatten

/-- The points of a tree are those of its nodes. -/
theorem mem_treePoints {root : ExprId} {p : Point} :
    p ∈ db.treePoints cfg root ↔ ∃ n ∈ db.nodes root, p ∈ db.points cfg n := by
  rw [treePoints, units, ← List.flatMap_def, List.mem_flatMap]

/-- The units of a tree are read off what is bare and what is muted. -/
theorem Forest.units_congr (hf : db.Forest) {root : ExprId} {er : Expression}
    (h : db.expr? root = some er) {db' : Database} (hb : db'.bare = db.bare)
    (hm : ∀ x ∈ db.nodes root, db'.muted x = db.muted x) :
    db'.units cfg root = db.units cfg root := by
  rw [units, units, nodes_congr hb]
  apply List.map_congr_left
  intro n hn
  obtain ⟨en, hen⟩ := hf.expr?_of_mem_nodes h hn
  exact hf.points_congr hen hb fun x hx => hm x (hf.nodes_trans h hn hx)

/-- Likewise for its points. -/
theorem Forest.treePoints_congr (hf : db.Forest) {root : ExprId} {er : Expression}
    (h : db.expr? root = some er) {db' : Database} (hb : db'.bare = db.bare)
    (hm : ∀ x ∈ db.nodes root, db'.muted x = db.muted x) :
    db'.treePoints cfg root = db.treePoints cfg root := by
  rw [treePoints, hf.units_congr h hb hm, treePoints]

/-- Exclusions let no point come or go. -/
theorem Forest.length_treePoints_congr (hf : db.Forest) {root : ExprId} {er : Expression}
    (h : db.expr? root = some er) {db' : Database} (hb : db'.bare = db.bare) :
    (db'.treePoints cfg root).length = (db.treePoints cfg root).length := by
  simp only [treePoints, units, nodes_congr hb, List.length_flatten, List.map_map]
  congr 1
  apply List.map_congr_left
  intro n hn
  obtain ⟨en, hen⟩ := hf.expr?_of_mem_nodes h hn
  obtain ⟨en', hen', -⟩ := exists_expr?_of_bare hb hen
  rw [Function.comp_apply, Function.comp_apply, hf.points_eq_mute hen,
    (hf.congr hb).points_eq_mute hen', hb, List.length_map, List.length_map]

/-- The node has to be given a number: it is not excluded and has none, and it is underlined for a
scored node or chain of the tree that misses something. -/
def awaits (db : Database) (cfg : ScoringConfig) (root x : ExprId) : Bool :=
  !db.muted x && (db.number? x).isNone &&
    (db.nodes root).any fun n => (db.points cfg n).any Point.missing && (db.sites cfg n).contains x

/-- The nodes of a tree that have to be given a number. -/
def awaiting (db : Database) (cfg : ScoringConfig) (root : ExprId) : List ExprId :=
  (db.nodes root).filter (db.awaits cfg root)

/-- What scoring a tree has done. -/
structure Scored (db : Database) (cfg : ScoringConfig) (root : ExprId) (marks : PassMarks)
    (counts : TreeCounts) (marks' : PassMarks) (db' : Database) : Prop where
  scorable : ∀ n ∈ db.nodes root, db.Scorable cfg n
  counts : counts.Counts (db.treePoints cfg root)
  marks : Marked (db.nodes root) marks marks'
  renewal : ∃ u u' : Underlining, u.db = db ∧ u'.db = db' ∧
    u.next.toNat = (Underlining.highest db (db.nodes root)).toNat + 1 ∧
      Underlining.Renewal db.muted (Underlining.visits (db.units cfg root)) u u'

/-- There are not enough numbers for the nodes of a tree that await one. -/
def Crowded (db : Database) (cfg : ScoringConfig) (root : ExprId) : Prop :=
  UInt32.size ≤ (Underlining.highest db (db.nodes root)).toNat + 1 + (db.awaiting cfg root).length

/-- Why scoring a tree fails. -/
inductive Unscored (db : Database) (cfg : ScoringConfig) (root : ExprId) : Fault → Prop where
  | node {n : ExprId} {fault : Fault} : n ∈ db.nodes root → db.scoredPoints n cfg = .error fault →
    Unscored db cfg root fault
  | points : UInt32.size ≤ (db.treePoints cfg root).length → Unscored db cfg root .counterOverflow
  | numbers : db.Crowded cfg root → Unscored db cfg root .underlinesExhausted

/-- A tree of which all nodes can be scored and whose points a counter holds can only run out of
numbers. -/
theorem Unscored.exhausted {root : ExprId} {fault : Fault} (h : db.Unscored cfg root fault)
    (hscorable : ∀ n ∈ db.nodes root, db.Scorable cfg n)
    (hfit : (db.treePoints cfg root).length < UInt32.size) :
    fault = .underlinesExhausted ∧ db.Crowded cfg root := by
  cases h with
  | numbers hcrowded => exact ⟨rfl, hcrowded⟩
  | node hn herr =>
    obtain ⟨o, ho⟩ := hscorable _ hn
    cases ho.symm.trans herr
  | points hsize => exact absurd hfit (Nat.not_lt.mpr hsize)

namespace Forest

variable (hf : db.Forest) {root : ExprId} {er : Expression}

include hf

/-- All sites of a tree are in it. -/
theorem site_mem_nodes (h : db.expr? root = some er) {n x : ExprId} (hn : n ∈ db.nodes root)
    (hx : x ∈ db.sites cfg n) : x ∈ db.nodes root := by
  obtain ⟨en, hen⟩ := hf.expr?_of_mem_nodes h hn
  exact hf.nodes_trans h hn (hf.mem_nodes_of_mem_sites hen hx)

/-- The points of a tree are excluded as their sites are muted. -/
theorem excluded_of_mem_units (h : db.expr? root = some er) {points : List Point}
    (hpoints : points ∈ db.units cfg root) : ∀ p ∈ points, p.excluded = db.muted p.site := by
  intro p hp
  obtain ⟨n, hn, rfl⟩ := List.mem_map.mp hpoints
  obtain ⟨en, hen⟩ := hf.expr?_of_mem_nodes h hn
  exact hf.excluded_of_mem_points hen hp

theorem exists_site_of_mem_units (h : db.expr? root = some er) {points : List Point}
    (hpoints : points ∈ db.units cfg root) : ∀ p ∈ points, ∃ e, db.expr? p.site = some e := by
  intro p hp
  obtain ⟨n, hn, rfl⟩ := List.mem_map.mp hpoints
  exact hf.expr?_of_mem_nodes h (hf.site_mem_nodes h hn (List.mem_map_of_mem hp))

theorem mem_nodes_of_visited (h : db.expr? root = some er) {x : ExprId}
    (hx : x ∈ (Underlining.visits (db.units cfg root)).map (·.2)) : x ∈ db.nodes root := by
  obtain ⟨⟨missing, y⟩, hmem, rfl⟩ := List.mem_map.mp hx
  obtain ⟨_, hpoints, -, hy⟩ := Underlining.mem_visits.mp hmem
  obtain ⟨n, hn, rfl⟩ := List.mem_map.mp hpoints
  exact hf.site_mem_nodes h hn hy

/-- A tree's newcomers are the nodes that await a number. -/
theorem mem_newcomers_iff (h : db.expr? root = some er) {u : Underlining} (hu : u.db = db)
    {x : ExprId} :
    x ∈ u.newcomers db.muted (Underlining.visits (db.units cfg root)) ↔
      x ∈ db.awaiting cfg root := by
  simp only [Underlining.mem_newcomers, Underlining.mem_visits, units, List.mem_map, awaiting,
    List.mem_filter, awaits, Underlining.isOpen, hu, Bool.and_eq_true, List.any_eq_true,
    List.contains_iff_mem]
  constructor
  · rintro ⟨⟨_, ⟨n, hn, rfl⟩, hmiss, hx⟩, hopen⟩
    exact ⟨hf.site_mem_nodes h hn (List.mem_map.mpr hx), hopen, n, hn, hmiss, List.mem_map.mpr hx⟩
  · rintro ⟨-, hopen, n, hn, hmiss, hx⟩
    exact ⟨⟨_, ⟨n, hn, rfl⟩, hmiss, List.mem_map.mp hx⟩, hopen⟩

/-- There are as many newcomers as nodes that await a number. -/
theorem length_newcomers (h : db.expr? root = some er) {u : Underlining} (hu : u.db = db) :
    (u.newcomers db.muted (Underlining.visits (db.units cfg root))).length =
      (db.awaiting cfg root).length := by
  refine List.Perm.length_eq ((List.perm_ext_iff_of_nodup ?_ ?_).mpr fun x =>
    hf.mem_newcomers_iff h hu)
  · exact Underlining.nodup_newcomers
  · exact (hf.nodup_nodes h).filter _

/-- Scoring a tree numbers the awaiting nodes after the highest number there is, and passes over the
nodes. -/
theorem computeTree_eq {stmt : StmtId} {st : Statement} (hs : db.stmt? stmt = some st)
    (marks : PassMarks) :
    db.computeTree st.root cfg marks = do
      let underlining ← Underlining.start db (db.nodes st.root)
      let s ← (db.nodes st.root).foldlM (db.visitNode (TreeScore.step db cfg))
        ⟨.zero, marks, underlining⟩
      return (s.counts, s.marks, s.underlining.db) := by
  obtain ⟨er, her, -⟩ := hf.root hs
  have hpost : (db.tree st.root).postOrder = .ok (db.nodes st.root) := hf.subtree_eq her
  simp only [computeTree, scoreTree, hpost, hf.visit_root _ hs, bind, Except.bind]
  cases Underlining.start db (db.nodes st.root) with
  | error fault => rfl
  | ok underlining =>
    dsimp only
    cases (db.nodes st.root).foldlM (db.visitNode (TreeScore.step db cfg))
      ⟨.zero, marks, underlining⟩ <;> rfl

/-- The walk over a statement's tree agrees with the points of its nodes, each found from the node
alone. -/
theorem computeTree_spec {stmt : StmtId} {st : Statement} (hs : db.stmt? stmt = some st)
    {marks : PassMarks} (hm : ∀ n ∈ db.nodes st.root, marks.counted n = false) :
    (∃ counts marks' db', db.computeTree st.root cfg marks = .ok (counts, marks', db') ∧
      db.Scored cfg st.root marks counts marks' db') ∨
    ∃ fault, db.computeTree st.root cfg marks = .error fault ∧ db.Unscored cfg st.root fault := by
  obtain ⟨er, her, -⟩ := hf.root hs
  rw [hf.computeTree_eq hs, Underlining.start_eq]
  cases hnext : Counter.addOr .underlinesExhausted
      (Underlining.highest db (db.nodes st.root)) 1 with
  | error fault =>
    rw [Counter.addOr] at hnext
    split at hnext <;> cases hnext
    refine .inr ⟨_, rfl, .numbers ?_⟩
    rw [Crowded]
    omega
  | ok next =>
    rw [Counter.addOr_eq_ok_iff] at hnext
    -- The walk counts and numbers at once; `hout` is what its numbering alone comes to.
    have hout : Underlining.Outcome db.muted (Underlining.visits (db.units cfg st.root)) ⟨db, next⟩
        ((db.units cfg st.root).foldlM Underlining.unit ⟨db, next⟩) :=
      Underlining.foldlM_unit (fun _ hpoints => hf.excluded_of_mem_units her hpoints)
        fun _ hpoints => hf.exists_site_of_mem_units her hpoints
    have hlen : (Underlining.newcomers db.muted ⟨db, next⟩ _).length =
      (db.awaiting cfg st.root).length := hf.length_newcomers her rfl
    cases hpass : (db.nodes st.root).foldlM (db.visitNode (TreeScore.step db cfg))
        ⟨.zero, marks, ⟨db, next⟩⟩ with
    | ok s =>
      obtain ⟨hscorable, hcounts, hunder, hmarks⟩ := hf.foldlM_step_ok
        (fun n hn => hf.expr?_of_mem_nodes her hn) (hf.nodup_nodes her) hm
        TreeCounts.zero_counts hpass
      rw [units, hunder] at hout
      cases hout with
      | renewed hroom hr =>
        refine .inl ⟨s.counts, s.marks, s.underlining.db, ?_, ?_⟩
        · rw [Except.map, ok_bind, hpass]
          rfl
        · exact ⟨hscorable, hcounts, hmarks, ⟨db, next⟩, s.underlining, rfl, rfl, hnext, hr⟩
    | error fault =>
      refine .inr ⟨fault, ?_, ?_⟩
      · rw [Except.map, ok_bind, hpass]
        rfl
      · rcases hf.foldlM_step_error (fun n hn => hf.expr?_of_mem_nodes her hn) (hf.nodup_nodes her)
          hm TreeCounts.zero_counts hpass with ⟨n, hn, hfault⟩ | ⟨rfl, hsize⟩ | hunder
        · exact .node hn hfault
        · exact .points hsize
        · rw [units, hunder] at hout
          cases hout with
          | exhausted hroom =>
            refine .numbers ?_
            rw [Crowded, ← hlen, ← hnext]
            exact Nat.le_of_not_lt hroom

/-- A scoring renews the numbers unit by unit. -/
theorem units_of_computeTree {stmt : StmtId} {st : Statement} (hs : db.stmt? stmt = some st)
    {marks marks' : PassMarks} (hm : ∀ n ∈ db.nodes st.root, marks.counted n = false)
    {counts : TreeCounts} {db' : Database}
    (h : db.computeTree st.root cfg marks = .ok (counts, marks', db')) :
    ∃ next u', next.toNat = (Underlining.highest db (db.nodes st.root)).toNat + 1 ∧
      (db.units cfg st.root).foldlM Underlining.unit ⟨db, next⟩ = .ok u' ∧ u'.db = db' := by
  obtain ⟨er, her, -⟩ := hf.root hs
  rw [hf.computeTree_eq hs] at h
  obtain ⟨underlining, hstart, h⟩ := bind_eq_ok_iff.mp h
  obtain ⟨s, hpass, h⟩ := bind_eq_ok_iff.mp h
  cases h
  obtain ⟨next, hnext, hstart⟩ := bind_eq_ok_iff.mp hstart
  cases hstart
  obtain ⟨-, -, hunits, -⟩ := hf.foldlM_step_ok (fun n hn => hf.expr?_of_mem_nodes her hn)
    (hf.nodup_nodes her) hm TreeCounts.zero_counts hpass
  exact ⟨next, s.underlining, Counter.addOr_eq_ok_iff.mp hnext, hunits, rfl⟩

/-- What a scoring that succeeds has done. -/
theorem scored_of_computeTree {stmt : StmtId} {st : Statement} (hs : db.stmt? stmt = some st)
    {marks marks' : PassMarks} (hm : ∀ n ∈ db.nodes st.root, marks.counted n = false)
    {counts : TreeCounts} {db' : Database}
    (h : db.computeTree st.root cfg marks = .ok (counts, marks', db')) :
    db.Scored cfg st.root marks counts marks' db' := by
  rcases hf.computeTree_spec hs hm with ⟨_, _, _, h', hscored⟩ | ⟨_, h', -⟩
  · cases h.symm.trans h'
    exact hscored
  · cases h.symm.trans h'

/-- Why a scoring fails. -/
theorem unscored_of_computeTree {stmt : StmtId} {st : Statement} (hs : db.stmt? stmt = some st)
    {marks : PassMarks} (hm : ∀ n ∈ db.nodes st.root, marks.counted n = false) {fault : Fault}
    (h : db.computeTree st.root cfg marks = .error fault) : db.Unscored cfg st.root fault := by
  rcases hf.computeTree_spec hs hm with ⟨_, _, _, h', -⟩ | ⟨_, h', hunscored⟩
  · cases h.symm.trans h'
  · cases h.symm.trans h'
    exact hunscored

end Forest

namespace Scored

variable {root : ExprId} {marks marks' : PassMarks} {counts : TreeCounts} {db' : Database}
  (h : db.Scored cfg root marks counts marks' db')

include h

/-- Scoring touches scores only. -/
theorem unscored : db'.unscored = db.unscored := by
  obtain ⟨u, u', rfl, rfl, -, hr⟩ := h.renewal
  exact hr.unscored

theorem scopes : db'.scopes = db.scopes := by
  obtain ⟨u, u', rfl, rfl, -, hr⟩ := h.renewal
  exact hr.scopes

theorem stmts : db'.stmts = db.stmts := stmts_eq_of_unscored h.unscored

theorem bare : db'.bare = db.bare := bare_eq_of_unscored h.unscored

/-- Nodes were numbered, so that there were enough numbers. -/
theorem not_crowded (hf : db.Forest) {er : Expression} (hr : db.expr? root = some er) :
    ¬ db.Crowded cfg root := by
  obtain ⟨u, u', hu, -, hnext, hrenewal⟩ := h.renewal
  have hlen : (u.newcomers db.muted (Underlining.visits (db.units cfg root))).length =
    (db.awaiting cfg root).length := hf.length_newcomers hr hu
  have hend := hrenewal.next
  have hsize := u'.next.toNat_lt_size
  rw [Crowded]
  omega

end Scored

end Database

end LogicCoverage
