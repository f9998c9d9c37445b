import LogicCoverage.Proofs.TreeScore

/-!
# The underline ids of a tree

Scoring a tree keeps the numbers of its nodes that are not muted, takes them from the muted ones
that it visits, and gives new ones to the nodes that await one. Afterwards no node of the tree
awaits a number. What holds of all numbers at once is the invariant `Numbered`.
-/

namespace LogicCoverage.Database

open Relation

variable {db db' : Database} {cfg : ScoringConfig}

/-! ## One tree -/

section Tree

variable {root : ExprId} {er : Expression} {marks marks' : PassMarks} {counts : TreeCounts}
  {x : ExprId}

/-- A node awaits a number if it is not muted, has none, and is a site of a node that misses
something. -/
theorem mem_awaiting (hf : db.Forest) (h : db.expr? root = some er) :
    x ∈ db.awaiting cfg root ↔ db.muted x = false ∧ db.number? x = none ∧
      ∃ n ∈ db.nodes root, (∃ p ∈ db.points cfg n, p.missing = true) ∧ x ∈ db.sites cfg n := by
  simp only [awaiting, awaits, List.mem_filter, Bool.and_eq_true, Bool.not_eq_true',
    Option.isNone_iff_eq_none, List.any_eq_true, List.contains_iff_mem]
  constructor
  · rintro ⟨-, ⟨hm, hn⟩, hsite⟩
    exact ⟨hm, hn, hsite⟩
  · rintro ⟨hm, hn, n, hmem, hmiss, hx⟩
    exact ⟨hf.site_mem_nodes h hmem hx, ⟨hm, hn⟩, n, hmem, hmiss, hx⟩

/-- Every node of the tree that is to have a number has one, and the numbers are not used up. -/
structure Served (db : Database) (cfg : ScoringConfig) (root : ExprId) : Prop where
  awaiting : db.awaiting cfg root = []
  room {x k} : x ∈ db.nodes root → db.number? x = some k → k.toNat + 1 < UInt32.size

/-- A tree that is served needs no more numbers. -/
theorem Served.not_crowded (h : db.Served cfg root) : ¬ db.Crowded cfg root := by
  rw [Crowded, h.awaiting, List.length_nil, Nat.add_zero, Nat.not_le]
  rcases Underlining.highest_mem (db.nodes root) with hzero | ⟨x, hx, hk⟩
  · rw [hzero]
    decide
  · exact h.room hx hk

/-- The tree is served, and no muted site in it has a number: there is no number to give or to
take. -/
structure Idle (db : Database) (cfg : ScoringConfig) (root : ExprId) : Prop
    extends db.Served cfg root where
  hushed {n x} : n ∈ db.nodes root → x ∈ db.sites cfg n → db.muted x = true → db.number? x = none

/-- A tree stays idle, as long as nothing is muted or heard again in it, no number is lost but by
muted nodes, which get none, and new numbers leave others. -/
theorem Idle.congr (hidle : db.Idle cfg root) (hf : db.Forest) (h : db.expr? root = some er)
    (hb : db'.bare = db.bare) (hm : ∀ x ∈ db.nodes root, db'.muted x = db.muted x)
    (hn : ∀ x ∈ db.nodes root, db.muted x = false → db'.number? x = none → db.number? x = none)
    (hnone : ∀ x ∈ db.nodes root, db.muted x = true → db.number? x = none → db'.number? x = none)
    (hroom : ∀ x ∈ db.nodes root, ∀ k, db'.number? x = some k →
      db.number? x = some k ∨ k.toNat + 1 < UInt32.size) : db'.Idle cfg root := by
  obtain ⟨er', her', -⟩ := exists_expr?_of_bare hb h
  have hpoints {n : ExprId} (hmem : n ∈ db.nodes root) : db'.points cfg n = db.points cfg n := by
    obtain ⟨en, hen⟩ := hf.expr?_of_mem_nodes h hmem
    exact hf.points_congr hen hb fun y hy => hm y (hf.nodes_trans h hmem hy)
  refine ⟨⟨?_, fun {x k} hx hk => ?_⟩, fun {n x} hmem hx hmx => ?_⟩
  · rw [List.eq_nil_iff_forall_not_mem]
    intro x hawait
    obtain ⟨hmx, hnone, n, hmem, ⟨p, hp, hmiss⟩, hx⟩ := (mem_awaiting (hf.congr hb) her').mp hawait
    rw [nodes_congr hb] at hmem
    rw [hpoints hmem] at hp
    rw [sites, hpoints hmem] at hx
    have hroot := hf.site_mem_nodes h hmem hx
    rw [hm x hroot] at hmx
    have hold : x ∈ db.awaiting cfg root := (mem_awaiting hf h).mpr
      ⟨hmx, hn x hroot hmx hnone, n, hmem, ⟨p, hp, hmiss⟩, hx⟩
    rw [hidle.awaiting] at hold
    exact List.not_mem_nil hold
  · rw [nodes_congr hb] at hx
    rcases hroom x hx k hk with hold | hlt
    · exact hidle.room hx hold
    · exact hlt
  · rw [nodes_congr hb] at hmem
    rw [sites, hpoints hmem] at hx
    have hroot := hf.site_mem_nodes h hmem hx
    rw [hm x hroot] at hmx
    exact hnone x hroot hmx (hidle.hushed hmem hx hmx)

namespace Scored

variable (hs : db.Scored cfg root marks counts marks' db')

include hs

/-- A muted site loses its number. -/
theorem number?_of_muted {n : ExprId} (hn : n ∈ db.nodes root) (hx : x ∈ db.sites cfg n)
    (hm : db.muted x = true) : db'.number? x = none := by
  obtain ⟨u, u', rfl, rfl, -, hr⟩ := hs.renewal
  refine hr.number?_of_muted hm (Underlining.mem_visits.mpr ⟨_, ?_, rfl, hx⟩)
  exact List.mem_map_of_mem hn

/-- A node that is not muted keeps its number. -/
theorem number?_of_some {k : UInt32} (hm : db.muted x = false) (hk : db.number? x = some k) :
    db'.number? x = some k := by
  obtain ⟨u, u', rfl, rfl, -, hr⟩ := hs.renewal
  exact hr.number?_of_some hm hk

/-- A number was there before, or was given to an awaiting node; then it is higher than all numbers
of the tree, and leaves others. -/
theorem number?_eq_some (hf : db.Forest) (h : db.expr? root = some er) {k : UInt32}
    (hk : db'.number? x = some k) :
    db.number? x = some k ∨
      x ∈ db.awaiting cfg root ∧ Underlining.highest db (db.nodes root) < k ∧
        k.toNat + 1 < UInt32.size := by
  obtain ⟨u, u', rfl, rfl, hnext, hr⟩ := hs.renewal
  refine (hr.number?_eq_some hk).imp id ?_
  rintro ⟨hnew, hk⟩
  have hlt := List.idxOf_lt_length_of_mem hnew
  have hsize := u'.next.toNat_lt_size
  have hend := hr.next
  refine ⟨(hf.mem_newcomers_iff h rfl).mp hnew, ?_, by omega⟩
  rw [UInt32.lt_iff_toNat_lt]
  omega

/-- A node outside the tree is left alone. -/
theorem number?_of_notMem (hf : db.Forest) (h : db.expr? root = some er)
    (hx : x ∉ db.nodes root) : db'.number? x = db.number? x := by
  obtain ⟨u, u', rfl, rfl, -, hr⟩ := hs.renewal
  exact hr.number?_of_not_visited fun hv => hx (hf.mem_nodes_of_visited h hv)

/-- Scoring mutes and unmutes nothing. -/
theorem muted (hf : db.Forest) : db'.muted = db.muted := hf.muted_eq_of_unscored hs.unscored

/-- Afterwards no node of the tree awaits a number. -/
theorem awaiting_eq_nil (hf : db.Forest) (h : db.expr? root = some er) :
    db'.awaiting cfg root = [] := by
  obtain ⟨er', her', -⟩ := exists_expr?_of_bare hs.bare h
  apply List.eq_nil_iff_forall_not_mem.mpr
  intro x hawait
  obtain ⟨hm, hnone, n, hn, ⟨p, hp, hmiss⟩, hx⟩ :=
    (mem_awaiting (hf.congr hs.bare) her').mp hawait
  rw [nodes_congr hs.bare] at hn
  obtain ⟨en, hen⟩ := hf.expr?_of_mem_nodes h hn
  have hpoints : db'.points cfg n = db.points cfg n :=
    hf.points_congr hen hs.bare fun y _ => congrFun (hs.muted hf) y
  rw [hpoints] at hp
  rw [sites, hpoints] at hx
  rw [hs.muted hf] at hm
  obtain ⟨u, u', rfl, rfl, -, hr⟩ := hs.renewal
  refine hr.number?_ne_none hm (Underlining.mem_visits.mpr ⟨_, ?_, ?_, hx⟩) hnone
  · exact List.mem_map_of_mem hn
  · exact List.any_eq_true.mpr ⟨p, hp, hmiss⟩

/-- A tree that was scored is idle. -/
theorem idle (hf : db.Forest) (h : db.expr? root = some er) : db'.Idle cfg root where
  awaiting := hs.awaiting_eq_nil hf h
  room {x k} hx hk := by
    rw [nodes_congr hs.bare] at hx
    rcases hs.number?_eq_some hf h hk with hold | ⟨-, -, hlt⟩
    · obtain ⟨u, u', -, -, hnext, -⟩ := hs.renewal
      have hle := UInt32.le_iff_toNat_le.mp (Underlining.le_highest hx hold)
      have hsize := u.next.toNat_lt_size
      omega
    · exact hlt
  hushed {n x} hn hx hm := by
    rw [nodes_congr hs.bare] at hn
    obtain ⟨en, hen⟩ := hf.expr?_of_mem_nodes h hn
    rw [sites, hf.points_congr hen hs.bare fun y _ => congrFun (hs.muted hf) y] at hx
    rw [hs.muted hf] at hm
    exact hs.number?_of_muted hn hx hm

/-- Numbers that were different within the tree are different afterwards. -/
theorem number?_inj {y : ExprId} (hx : x ∈ db.nodes root) (hy : y ∈ db.nodes root)
    (hinj : ∀ k, db.number? x = some k → db.number? y = some k → x = y) {k : UInt32}
    (hkx : db'.number? x = some k) (hky : db'.number? y = some k) : x = y := by
  obtain ⟨u, u', rfl, rfl, hnext, hr⟩ := hs.renewal
  have below {z : ExprId} (hz : z ∈ u.db.nodes root) :
      ∀ m, u.db.number? z = some m → m.toNat < u.next.toNat := by
    intro m hm
    have hle := UInt32.le_iff_toNat_le.mp (Underlining.le_highest hz hm)
    omega
  exact hr.number?_inj (below hx) (below hy) hinj hkx hky

end Scored

end Tree

/-! ## All trees -/

/-- The tree of one statement was scored. -/
def Rescored (cfg : ScoringConfig) (db db' : Database) : Prop :=
  ∃ stmt st marks counts marks', db.stmt? stmt = some st ∧
    db.Scored cfg st.root marks counts marks' db'

/-- The node is the site of a point of some tree. -/
def HasSite (db : Database) (cfg : ScoringConfig) (x : ExprId) : Prop :=
  ∃ stmt st n, db.stmt? stmt = some st ∧ n ∈ db.nodes st.root ∧ x ∈ db.sites cfg n

/-- A node is a site whatever is excluded. -/
theorem Forest.hasSite_congr (hf : db.Forest) (hb : db'.bare = db.bare) {x : ExprId}
    (h : db.HasSite cfg x) : db'.HasSite cfg x := by
  obtain ⟨stmt, st, n, hst, hmem, hx⟩ := h
  obtain ⟨st', hst', hbare⟩ := exists_stmt?_of_bare hb hst
  have hroot : st'.root = st.root := Statement.root_eq_of_bare hbare
  obtain ⟨er, her, -⟩ := hf.root hst
  obtain ⟨en, hen⟩ := hf.expr?_of_mem_nodes her hmem
  obtain ⟨en', hen', -⟩ := exists_expr?_of_bare hb hen
  refine ⟨stmt, st', n, hst', ?_, ?_⟩
  · rwa [nodes_congr hb, hroot]
  · rwa [← (hf.congr hb).sites_bare hen', hb, hf.sites_bare hen]

/-- The numbers that a database has could have been given by scorings. -/
structure Numbered (db : Database) (cfg : ScoringConfig) : Prop where
  distinct {stmt st x y k} : db.stmt? stmt = some st → x ∈ db.nodes st.root →
    y ∈ db.nodes st.root → db.number? x = some k → db.number? y = some k → x = y
  pos {x k} : db.number? x = some k → 0 < k
  site {x k} : db.number? x = some k → ∃ stmt st n, db.stmt? stmt = some st ∧
    n ∈ db.nodes st.root ∧ x ∈ db.sites cfg n

/-- What holds of all numbers does so whatever is excluded. -/
theorem Numbered.congr (hn : db.Numbered cfg) (hf : db.Forest) (hb : db'.bare = db.bare)
    (hnumber : ∀ x, db'.number? x = db.number? x) : db'.Numbered cfg where
  distinct {stmt st x y k} hst hx hy hkx hky := by
    obtain ⟨st', hst', hbare⟩ := exists_stmt?_of_bare hb.symm hst
    have hroot : st'.root = st.root := Statement.root_eq_of_bare hbare
    rw [nodes_congr hb, ← hroot] at hx hy
    rw [hnumber] at hkx hky
    exact hn.distinct hst' hx hy hkx hky
  pos {x k} hk := hn.pos ((hnumber x).symm.trans hk)
  site {x k} hk := hf.hasSite_congr hb (hn.site ((hnumber x).symm.trans hk))

/-- No muted node has a number. -/
def Audible (db : Database) : Prop := ∀ x k, db.number? x = some k → db.muted x = false

/-- The tree of the statement is idle. -/
def Settled (db : Database) (cfg : ScoringConfig) (stmt : StmtId) : Prop :=
  ∀ st, db.stmt? stmt = some st → db.Idle cfg st.root

namespace Rescored

variable (h : Rescored cfg db db')

include h

/-- Scoring touches scores only. -/
theorem unscored : db'.unscored = db.unscored := by
  obtain ⟨stmt, st, marks, counts, marks', -, hs⟩ := h
  exact hs.unscored

theorem scopes : db'.scopes = db.scopes := by
  obtain ⟨stmt, st, marks, counts, marks', -, hs⟩ := h
  exact hs.scopes

theorem bare : db'.bare = db.bare := bare_eq_of_unscored h.unscored

theorem stmt? (stmt : StmtId) : db'.stmt? stmt = db.stmt? stmt :=
  stmt?_eq_of_unscored h.unscored stmt

theorem number?_of_some {x : ExprId} {k : UInt32} (hm : db.muted x = false)
    (hk : db.number? x = some k) : db'.number? x = some k := by
  obtain ⟨stmt, st, marks, counts, marks', -, hs⟩ := h
  exact hs.number?_of_some hm hk

variable (hf : db.Forest)

include hf

theorem muted : db'.muted = db.muted := hf.muted_eq_of_unscored h.unscored

/-- Scoring leaves the sites of a node alone. -/
theorem sites_eq {n : ExprId} {e : Expression} (he : db.expr? n = some e) :
    db'.sites cfg n = db.sites cfg n := by
  rw [sites, sites, hf.points_congr he h.bare fun y _ => congrFun (h.muted hf) y]

/-- A number was there before, or belongs to a site. -/
theorem number?_eq_some {x : ExprId} {k : UInt32} (hk : db'.number? x = some k) :
    db.number? x = some k ∨ db'.HasSite cfg x := by
  have hb := h.bare
  obtain ⟨stmt, st, marks, counts, marks', hst, hs⟩ := h
  obtain ⟨er, her, -⟩ := hf.root hst
  rcases hs.number?_eq_some hf her hk with hold | ⟨hawait, -, -⟩
  · exact .inl hold
  · obtain ⟨-, -, n, hmem, -, hx⟩ := (mem_awaiting hf her).mp hawait
    exact .inr (hf.hasSite_congr hb ⟨stmt, st, n, hst, hmem, hx⟩)

/-- Numbers that could have been given stay so. -/
theorem numbered (hn : db.Numbered cfg) : db'.Numbered cfg := by
  obtain ⟨stmt₀, st₀, marks, counts, marks', hs₀, hscored⟩ := h
  have h : Rescored cfg db db' := ⟨stmt₀, st₀, marks, counts, marks', hs₀, hscored⟩
  obtain ⟨er, her, -⟩ := hf.root hs₀
  refine ⟨?_, ?_, ?_⟩
  · intro stmt st x y k hst hx hy hkx hky
    rw [h.stmt?] at hst
    rw [nodes_congr h.bare] at hx hy
    by_cases heq : stmt = stmt₀
    · subst heq
      cases hst.symm.trans hs₀
      exact hscored.number?_inj hx hy (fun m => hn.distinct hst hx hy) hkx hky
    · have outside {z : ExprId} (hz : z ∈ db.nodes st.root) : z ∉ db.nodes st₀.root :=
        fun hz₀ => heq (hf.stmt_eq_of_mem_nodes hst hs₀ hz hz₀)
      rw [hscored.number?_of_notMem hf her (outside hx)] at hkx
      rw [hscored.number?_of_notMem hf her (outside hy)] at hky
      exact hn.distinct hst hx hy hkx hky
  · intro x k hk
    rcases hscored.number?_eq_some hf her hk with hk | ⟨-, hlt, -⟩
    · exact hn.pos hk
    · rw [UInt32.lt_iff_toNat_lt] at *
      exact Nat.lt_of_le_of_lt (Nat.zero_le _) hlt
  · intro x k hk
    rcases h.number?_eq_some hf hk with hold | hsite
    · exact hf.hasSite_congr h.bare (hn.site hold)
    · exact hsite

/-- Scoring gives no number to a muted node. -/
theorem audible (ha : db.Audible) : db'.Audible := by
  intro x k hk
  rw [h.muted hf]
  obtain ⟨stmt₀, st₀, marks, counts, marks', hs₀, hscored⟩ := h
  obtain ⟨er, her, -⟩ := hf.root hs₀
  rcases hscored.number?_eq_some hf her hk with hk | ⟨hawait, -, -⟩
  · exact ha x k hk
  · exact ((mem_awaiting hf her).mp hawait).1

/-- A muted node without a number gets none. -/
theorem number?_of_none {x : ExprId} (hm : db.muted x = true) (hnone : db.number? x = none) :
    db'.number? x = none := by
  obtain ⟨stmt, st, marks, counts, marks', hst, hs⟩ := h
  obtain ⟨er, her, -⟩ := hf.root hst
  rw [Option.eq_none_iff_forall_not_mem]
  intro k hk
  rcases hs.number?_eq_some hf her hk with hold | ⟨hawait, -, -⟩
  · cases hnone.symm.trans hold
  · cases hm.symm.trans ((mem_awaiting hf her).mp hawait).1

/-- A settled tree stays settled. -/
theorem settled {stmt : StmtId} (hset : db.Settled cfg stmt) : db'.Settled cfg stmt := by
  intro st hst
  rw [h.stmt?] at hst
  obtain ⟨er, her, -⟩ := hf.root hst
  refine (hset st hst).congr hf her h.bare (fun y _ => congrFun (h.muted hf) y) ?_ ?_ ?_
  · intro y _ hm hnone
    cases hk : db.number? y with
    | none => rfl
    | some k => cases hnone.symm.trans (h.number?_of_some hm hk)
  · exact fun y _ => h.number?_of_none hf
  · intro y _ k hk
    obtain ⟨stmt₀, st₀, marks, counts, marks', hs₀, hscored⟩ := h
    obtain ⟨er₀, her₀, -⟩ := hf.root hs₀
    exact (hscored.number?_eq_some hf her₀ hk).imp id fun hnew => hnew.2.2

end Rescored

/-! ## Changes of statements and scopes -/

/-- All nodes are as before, and statements and scopes are so up to what is not bare. -/
structure SameNodes (db db' : Database) : Prop where
  exprs : db'.exprs = db.exprs
  bare : db'.bare = db.bare

namespace SameNodes

variable (h : db.SameNodes db')

include h

theorem number? (x : ExprId) : db'.number? x = db.number? x := by
  rw [Database.number?, expr?, h.exprs]
  rfl

theorem flagged : db'.flagged = db.flagged := by
  funext x
  rw [Database.flagged, expr?, h.exprs]
  rfl

variable (hf : db.Forest)

include hf

theorem muted : db'.muted = db.muted := hf.muted_congr h.bare h.flagged

theorem treePoints {root : ExprId} {er : Expression} (hr : db.expr? root = some er) :
    db'.treePoints cfg root = db.treePoints cfg root :=
  hf.treePoints_congr hr h.bare fun x _ => congrFun (h.muted hf) x

theorem numbered (hn : db.Numbered cfg) : db'.Numbered cfg := hn.congr hf h.bare h.number?

theorem audible (ha : db.Audible) : db'.Audible := by
  intro x k hk
  rw [h.number?] at hk
  rw [h.muted hf]
  exact ha x k hk

theorem idle {root : ExprId} {er : Expression} (hr : db.expr? root = some er)
    (hidle : db.Idle cfg root) : db'.Idle cfg root := by
  refine hidle.congr hf hr h.bare (fun x _ => congrFun (h.muted hf) x) ?_ ?_ ?_
  · intro x _ _ hnone
    rwa [h.number?] at hnone
  · intro x _ _ hnone
    rwa [h.number?]
  · intro x _ k hk
    rw [h.number?] at hk
    exact .inl hk

theorem settled {stmt : StmtId} (hset : db.Settled cfg stmt) : db'.Settled cfg stmt := by
  intro st' hs'
  obtain ⟨st, hs, hbare⟩ := exists_stmt?_of_bare h.bare.symm hs'
  rw [← Statement.root_eq_of_bare hbare]
  obtain ⟨er, her, -⟩ := hf.root hs
  exact h.idle hf her (hset st hs)

end SameNodes

end LogicCoverage.Database
