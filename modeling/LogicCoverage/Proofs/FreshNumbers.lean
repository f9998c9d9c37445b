import LogicCoverage.Proofs.Numbers

/-!
# The numbers of a tree that had none

Scoring a tree without numbers numbers a roster of its nodes from 1 on: those that are not excluded
and are underlined for a unit that misses something. A node's place in the roster is decided by the
first such unit, in post-order, and by where the node comes first among the points of that unit.
-/

namespace LogicCoverage

/-! ## First positions -/

section Positions

variable {α β : Type} [BEq α] [LawfulBEq α] {l : List α} {x y : α}

/-- An item in front does not change which of two others comes first. -/
theorem idxOf_cons_lt_iff {a : α} (hx : a ≠ x) (hy : a ≠ y) :
    (a :: l).idxOf x < (a :: l).idxOf y ↔ l.idxOf x < l.idxOf y := by
  rw [List.idxOf_cons_ne _ hx, List.idxOf_cons_ne _ hy, Nat.succ_lt_succ_iff]

/-- Which of two items comes first does not depend on the others. -/
theorem idxOf_filter_lt_iff {p : α → Bool} (hx : p x = true) (hy : p y = true) :
    (l.filter p).idxOf x < (l.filter p).idxOf y ↔ l.idxOf x < l.idxOf y := by
  induction l with
  | nil => rfl
  | cons a l ih =>
    by_cases hax : a = x
    · subst hax
      simp only [List.filter_cons_of_pos hx, List.idxOf_cons_self, List.idxOf_cons]
      cases a == y <;> simp
    · by_cases hay : a = y
      · subst hay
        simp only [List.filter_cons_of_pos hy, List.idxOf_cons_self, Nat.not_lt_zero]
      · rw [idxOf_cons_lt_iff hax hay, ← ih]
        cases hp : p a with
        | true => rw [List.filter_cons_of_pos hp, idxOf_cons_lt_iff hax hay]
        | false => rw [List.filter_cons_of_neg (Bool.not_eq_true _ ▸ hp)]

/-- Nor does it depend on repetitions. -/
theorem idxOf_eraseDups_lt_iff :
    l.eraseDups.idxOf x < l.eraseDups.idxOf y ↔ l.idxOf x < l.idxOf y := by
  induction hn : l.length using Nat.strong_induction_on generalizing l with
  | _ n ih =>
    cases l with
    | nil => rfl
    | cons a l =>
      rw [List.eraseDups_cons]
      by_cases hax : a = x
      · subst hax
        simp only [List.idxOf_cons_self, List.idxOf_cons]
        cases a == y <;> simp
      · by_cases hay : a = y
        · subst hay
          simp only [List.idxOf_cons_self, Nat.not_lt_zero]
        · have hlen : (l.filter fun b => !b == a).length < n :=
            hn ▸ Nat.lt_succ_of_le (List.length_filter_le _ l)
          have hother {z : α} (hz : a ≠ z) : (!z == a) = true := by
            rw [beq_eq_false_iff_ne.mpr hz.symm, Bool.not_false]
          rw [idxOf_cons_lt_iff hax hay, idxOf_cons_lt_iff hax hay, ih _ hlen rfl,
            idxOf_filter_lt_iff (p := fun b => !b == a) (hother hax) (hother hay)]

/-- Among joined lists the first one that has an item decides, and within it the item's first
position. -/
theorem idxOf_flatMap_lt_iff {f : β → List α} {bs : List β} :
    (bs.flatMap f).idxOf x < (bs.flatMap f).idxOf y ↔
      (bs.findIdx fun b => (f b).contains x) < (bs.findIdx fun b => (f b).contains y) ∨
      (bs.findIdx fun b => (f b).contains x) = (bs.findIdx fun b => (f b).contains y) ∧
        ∃ b, bs[bs.findIdx fun b => (f b).contains x]? = some b ∧
          (f b).idxOf x < (f b).idxOf y := by
  induction bs with
  | nil => simp
  | cons b bs ih =>
    have hcontains (z : α) : (f b).contains z = decide (z ∈ f b) := List.contains_eq_mem ..
    rw [List.flatMap_cons, List.idxOf_append, List.idxOf_append, List.findIdx_cons,
      List.findIdx_cons, hcontains, hcontains]
    by_cases hx : x ∈ f b <;> by_cases hy : y ∈ f b
    · simp [hx, hy]
    · rw [if_pos hx, if_neg hy, decide_eq_true hx, decide_eq_false hy, cond_true, cond_false]
      have := List.idxOf_lt_length_of_mem hx
      exact iff_of_true (by omega) (.inl (Nat.succ_pos _))
    · rw [if_neg hx, if_pos hy, decide_eq_false hx, decide_eq_true hy, cond_true, cond_false]
      have := List.idxOf_lt_length_of_mem hy
      exact iff_of_false (by omega) (by omega)
    · simp [hx, hy, ih]

end Positions

namespace Underlining

/-- The first points of the sites not seen before are those of distinct sites, in order. -/
theorem map_site_firstPerSite (seen : List ExprId) (points : List Point) :
    (firstPerSite seen points).map Point.site =
      ((points.map Point.site).filter fun x => !seen.contains x).eraseDups := by
  induction points generalizing seen with
  | nil => rfl
  | cons p points ih =>
    rw [firstPerSite, List.map_cons]
    cases hp : seen.contains p.site with
    | true => rw [if_pos rfl, ih, List.filter_cons_of_neg (by rw [hp]; exact Bool.false_ne_true)]
    | false =>
      have hseen : (fun x => !(p.site :: seen).contains x) =
          fun x => (!x == p.site) && !seen.contains x := by
        funext x
        rw [List.contains_cons, Bool.not_or]
      rw [if_neg Bool.false_ne_true, List.filter_cons_of_pos (by rw [hp]; rfl),
        List.eraseDups_cons, List.map_cons, ih, hseen, List.filter_filter]

/-- The sites that units number: those of the units that miss something, each unit once through. -/
theorem sites_visits (units : List (List Point)) :
    ((visits units).filter (·.1)).map (·.2) = units.flatMap fun points =>
      if points.any Point.missing then (points.map Point.site).eraseDups else [] := by
  rw [visits, List.filter_flatMap, List.map_flatMap]
  congr 1
  funext points
  have hsites : (firstPerSite [] points).map Point.site = (points.map Point.site).eraseDups := by
    simpa using map_site_firstPerSite [] points
  cases points.any Point.missing with
  | true => simp [List.filter_map, Function.comp_def, hsites]
  | false => simp

end Underlining

namespace Database

variable {db db' : Database} {cfg : ScoringConfig} {root x y : ExprId} {er : Expression}

/-! ## The roster -/

/-- The nodes that scoring a tree without numbers gives numbers to, in that order. -/
def roster (db : Database) (cfg : ScoringConfig) (root : ExprId) : List ExprId :=
  (((db.nodes root).flatMap fun n =>
    if (db.points cfg n).any Point.missing then (db.sites cfg n).eraseDups else []).filter
      fun x => !db.muted x).eraseDups

/-- The position of the first node whose unit misses something and has the site. -/
def firstUnit (db : Database) (cfg : ScoringConfig) (nodes : List ExprId) (x : ExprId) : Nat :=
  nodes.findIdx fun n => (db.points cfg n).any Point.missing && (db.sites cfg n).contains x

/-- The first unit of one site comes before that of another, or it is the same unit and the first
site comes first among its points. -/
def MetBefore (db : Database) (cfg : ScoringConfig) (nodes : List ExprId) (x y : ExprId) : Prop :=
  db.firstUnit cfg nodes x < db.firstUnit cfg nodes y ∨
    db.firstUnit cfg nodes x = db.firstUnit cfg nodes y ∧
      ∃ n, nodes[db.firstUnit cfg nodes x]? = some n ∧
        (db.sites cfg n).idxOf x < (db.sites cfg n).idxOf y

theorem nodup_roster : (db.roster cfg root).Nodup := Underlining.nodup_eraseDups _

/-- The roster lists the sites that are not muted of nodes that miss something. -/
theorem mem_roster : x ∈ db.roster cfg root ↔ db.muted x = false ∧
    ∃ n ∈ db.nodes root, (∃ p ∈ db.points cfg n, p.missing = true) ∧ x ∈ db.sites cfg n := by
  simp only [roster, List.mem_eraseDups, List.mem_filter, List.mem_flatMap, Bool.not_eq_true',
    and_comm (b := db.muted x = false)]
  refine and_congr_right fun _ => exists_congr fun n => and_congr_right fun _ => ?_
  cases hmiss : (db.points cfg n).any Point.missing with
  | true => simp [List.any_eq_true.mp hmiss]
  | false =>
    have hnone : ¬ ∃ p ∈ db.points cfg n, p.missing = true := by
      rw [← List.any_eq_true, hmiss]
      exact Bool.false_ne_true
    simp [hnone]

/-- Of two sites on the roster, that which is met before comes first. -/
theorem idxOf_roster_lt_iff (hx : db.muted x = false) (hy : db.muted y = false) :
    (db.roster cfg root).idxOf x < (db.roster cfg root).idxOf y ↔
      db.MetBefore cfg (db.nodes root) x y := by
  have hfirst (z : ExprId) : ((db.nodes root).findIdx fun n =>
      (if (db.points cfg n).any Point.missing then (db.sites cfg n).eraseDups else []).contains z) =
        db.firstUnit cfg (db.nodes root) z := by
    congr 1
    funext n
    cases (db.points cfg n).any Point.missing <;> simp
  rw [roster, idxOf_eraseDups_lt_iff,
    idxOf_filter_lt_iff (p := fun x => !db.muted x) (by rw [hx]; rfl) (by rw [hy]; rfl),
    idxOf_flatMap_lt_iff, hfirst, hfirst, MetBefore]
  refine or_congr_right (and_congr_right fun _ =>
    exists_congr fun n => and_congr_right fun hn => ?_)
  -- The first unit of a site is one that misses something.
  obtain ⟨hlt, hget⟩ := List.getElem?_eq_some_iff.mp hn
  have hunit := List.findIdx_getElem (w := hlt)
  rw [Bool.and_eq_true] at hunit
  change ((db.points cfg (db.nodes root)[db.firstUnit cfg (db.nodes root) x]).any _ = true) ∧ _
    at hunit
  rw [hget] at hunit
  rw [if_pos hunit.1, idxOf_eraseDups_lt_iff]

/-- In a tree without numbers the newcomers are the roster. -/
theorem Forest.newcomers_eq_roster (hf : db.Forest) (h : db.expr? root = some er)
    (hnone : ∀ x ∈ db.nodes root, db.number? x = none) {u : Underlining} (hu : u.db = db) :
    u.newcomers db.muted (Underlining.visits (db.units cfg root)) = db.roster cfg root := by
  rw [Underlining.newcomers, Underlining.sites_visits, units, List.flatMap_map, roster]
  congr 1
  refine List.filter_congr fun x hx => ?_
  obtain ⟨n, hn, hx⟩ := List.mem_flatMap.mp hx
  have hsite : x ∈ db.sites cfg n := by
    split at hx
    · exact List.mem_eraseDups.mp hx
    · exact (List.not_mem_nil hx).elim
  rw [Underlining.isOpen, hu, hnone x (hf.site_mem_nodes h hn hsite)]
  exact Bool.and_true _

namespace Scored

variable {marks marks' : PassMarks} {counts : TreeCounts}
  (hs : db.Scored cfg root marks counts marks' db') (hf : db.Forest) (h : db.expr? root = some er)
  (hnone : ∀ x ∈ db.nodes root, db.number? x = none)

include hs hf h hnone

/-- The roster has room in the numbers. -/
theorem length_roster_lt : (db.roster cfg root).length < UInt32.size := by
  obtain ⟨u, u', hu, -, -, hr⟩ := hs.renewal
  have hnext := hr.next
  rw [hf.newcomers_eq_roster h hnone hu] at hnext
  have := u'.next.toNat_lt_size
  omega

/-- A node has the number of its place in the roster. -/
theorem number?_eq_some_iff (hx : x ∈ db.nodes root) {k : UInt32} :
    db'.number? x = some k ↔
      x ∈ db.roster cfg root ∧ k.toNat = (db.roster cfg root).idxOf x + 1 := by
  have hlt := hs.length_roster_lt hf h hnone
  obtain ⟨u, u', hu, hu', hnext, hr⟩ := hs.renewal
  have hzero : Underlining.highest db (db.nodes root) = 0 := by
    obtain hzero | ⟨y, hy, hsome⟩ : Underlining.highest db (db.nodes root) = 0 ∨
        ∃ y ∈ db.nodes root, db.number? y = some (Underlining.highest db (db.nodes root)) :=
      Underlining.highest_mem _
    · exact hzero
    · cases (hnone y hy).symm.trans hsome
  have hone : u.next.toNat = 1 := by
    rw [hnext, hzero]
    rfl
  rw [← hu', hr.number?, Underlining.renewed, hf.newcomers_eq_roster h hnone hu, hu, hnone x hx]
  by_cases hmem : x ∈ db.roster cfg root
  · have hidx := List.idxOf_lt_length_of_mem hmem
    rw [if_neg (by simp [(mem_roster.mp hmem).1]), if_pos hmem, Option.some.injEq,
      ← UInt32.toNat_inj, UInt32.toNat_add, UInt32.toNat_ofNat', hone]
    simp only [hmem, true_and]
    have hpow : UInt32.size = 2 ^ 32 := rfl
    omega
  · rw [if_neg hmem]
    simp [hmem]

/-- The nodes that get numbers are those on the roster. -/
theorem number?_ne_none_iff (hx : x ∈ db.nodes root) :
    db'.number? x ≠ none ↔ x ∈ db.roster cfg root := by
  rw [Option.ne_none_iff_exists']
  constructor
  · rintro ⟨k, hk⟩
    exact ((hs.number?_eq_some_iff hf h hnone hx).mp hk).1
  · intro hmem
    have hidx := List.idxOf_lt_length_of_mem hmem
    have hlt := hs.length_roster_lt hf h hnone
    exact ⟨UInt32.ofNat ((db.roster cfg root).idxOf x + 1),
      (hs.number?_eq_some_iff hf h hnone hx).mpr
        ⟨hmem, UInt32.toNat_ofNat_of_lt' (by omega)⟩⟩

/-- The numbers given are those from 1 to the length of the roster. -/
theorem exists_number?_iff (m : UInt32) :
    (∃ x ∈ db.nodes root, db'.number? x = some m) ↔
      0 < m.toNat ∧ m.toNat ≤ (db.roster cfg root).length := by
  constructor
  · rintro ⟨x, hx, hm⟩
    obtain ⟨hmem, hm⟩ := (hs.number?_eq_some_iff hf h hnone hx).mp hm
    have := List.idxOf_lt_length_of_mem hmem
    omega
  · rintro ⟨hpos, hle⟩
    have hlt : m.toNat - 1 < (db.roster cfg root).length := by omega
    have hmem : (db.roster cfg root)[m.toNat - 1] ∈ db.roster cfg root := List.getElem_mem hlt
    have hx : (db.roster cfg root)[m.toNat - 1] ∈ db.nodes root := by
      obtain ⟨-, n, hn, -, hsite⟩ := mem_roster.mp hmem
      exact hf.site_mem_nodes h hn hsite
    refine ⟨_, hx, (hs.number?_eq_some_iff hf h hnone hx).mpr ⟨hmem, ?_⟩⟩
    rw [nodup_roster.idxOf_getElem]
    omega

end Scored

/-- On a consistent database, scoring a statement's tree that has no numbers, in a pass that has
counted nothing, numbers exactly the nodes that are not excluded and are underlined for a scored
node or chain that misses something. The numbers are those from 1 on without a gap, each given once;
of two numbered nodes the one that is met before the other has the lower number; nodes outside the
tree keep what they have; and a tree that misses nothing gets no number. -/
theorem computeTree_numbers (hdb : db.check = .ok ()) {stmt : StmtId} {st : Statement}
    (hs : db.stmt? stmt = some st) (cfg : ScoringConfig) {nodes : List ExprId}
    (hnodes : db.subtree st.root = .ok nodes) (hnone : ∀ x ∈ nodes, db.number? x = none)
    {marks : PassMarks} (hm : ∀ id, marks.counted id = false) {counts : TreeCounts}
    {marks' : PassMarks} (h : db.computeTree st.root cfg marks = .ok (counts, marks', db')) :
    (∀ x ∈ nodes, db'.number? x ≠ none ↔ db.isEffectivelyExcluded x = .ok false ∧
      ∃ n ∈ nodes, ∃ points, db.scoredPoints n cfg = .ok (some points) ∧
        (∃ p ∈ points, p.site = x) ∧ ∃ p ∈ points, p.hit = false ∧ p.excluded = false) ∧
    (∃ k : UInt32, ∀ m : UInt32, (∃ x ∈ nodes, db'.number? x = some m) ↔ 0 < m ∧ m ≤ k) ∧
    (∀ x ∈ nodes, ∀ y ∈ nodes, ∀ a b, db'.number? x = some a → db'.number? y = some b →
      (a = b → x = y) ∧ (a < b ↔ db.MetBefore cfg nodes x y)) ∧
    (∀ x, x ∉ nodes → db'.number? x = db.number? x) ∧
    ((∀ n ∈ nodes, ∀ points, db.scoredPoints n cfg = .ok (some points) →
      ∀ p ∈ points, p.hit = true ∨ p.excluded = true) → ∀ x ∈ nodes, db'.number? x = none) := by
  have hf := forest_of_check hdb
  obtain ⟨er, her, -⟩ := hf.root hs
  cases (hf.subtree_eq her).symm.trans hnodes
  have hscored := hf.scored_of_computeTree hs (fun n _ => hm n) h
  refine ⟨fun x hx => ?_, ⟨UInt32.ofNat (db.roster cfg st.root).length, fun m => ?_⟩,
    fun x hx y hy a b ha hb => ?_, fun x hx => hscored.number?_of_notMem hf her hx,
    fun hcovered x hx => ?_⟩
  -- the nodes that get a number are those on the roster
  · obtain ⟨ex, hex⟩ := hf.expr?_of_mem_nodes her hx
    rw [hscored.number?_ne_none_iff hf her hnone hx, mem_roster, hf.isEffectivelyExcluded_eq hex,
      Except.ok.injEq]
    refine and_congr_right fun _ => exists_congr fun n => and_congr_right fun _ => ?_
    constructor
    · rintro ⟨⟨p, hp, hmiss⟩, hsite⟩
      obtain ⟨points, hpoints, hsite⟩ := mem_sites_iff.mp hsite
      rw [points_of_scoredPoints hpoints] at hp
      exact ⟨points, hpoints, hsite, p, hp, Point.missing_iff.mp hmiss⟩
    · rintro ⟨points, hpoints, hsite, p, hp, hmiss⟩
      exact ⟨⟨p, mem_points_iff.mpr ⟨points, hpoints, hp⟩, Point.missing_iff.mpr hmiss⟩,
        mem_sites_iff.mpr ⟨points, hpoints, hsite⟩⟩
  -- the numbers are the places on the roster, from 1 on
  · have hlength : (UInt32.ofNat (db.roster cfg st.root).length).toNat =
        (db.roster cfg st.root).length :=
      UInt32.toNat_ofNat_of_lt' (hscored.length_roster_lt hf her hnone)
    rw [hscored.exists_number?_iff hf her hnone, UInt32.lt_iff_toNat_lt, UInt32.le_iff_toNat_le,
      hlength]
    rfl
  · obtain ⟨hmemx, ha⟩ := (hscored.number?_eq_some_iff hf her hnone hx).mp ha
    obtain ⟨hmemy, hb⟩ := (hscored.number?_eq_some_iff hf her hnone hy).mp hb
    refine ⟨fun heq => ?_, ?_⟩
    · subst heq
      exact (List.idxOf_inj hmemx).mp (by omega)
    · rw [← idxOf_roster_lt_iff (mem_roster.mp hmemx).1 (mem_roster.mp hmemy).1,
        UInt32.lt_iff_toNat_lt]
      omega
  -- and nothing is on the roster if nothing is missing
  · by_contra hsome
    obtain ⟨-, n, hn, ⟨p, hp, hmiss⟩, -⟩ :=
      mem_roster.mp ((hscored.number?_ne_none_iff hf her hnone hx).mp hsome)
    obtain ⟨points, hpoints, hp⟩ := mem_points_iff.mp hp
    obtain ⟨hhit, hexcluded⟩ := Point.missing_iff.mp hmiss
    rcases hcovered n hn points hpoints p hp with hcov | hcov
    · rw [hhit] at hcov
      cases hcov
    · rw [hexcluded] at hcov
      cases hcov

/-- The OR gate is numbered first, then the chain that it feeds, from operand to operand: the
excluded operand is left out, and the OR gate keeps the number it has. -/
theorem computeTree_numbers_mixedGates :
    mixedGates.check = .ok () ∧ mixedGates.stmt? ⟨0⟩ = some ⟨⟨6⟩, false⟩ ∧
      (∀ x ∈ ([⟨0⟩, ⟨1⟩, ⟨2⟩, ⟨3⟩, ⟨4⟩, ⟨5⟩, ⟨6⟩] : List ExprId), mixedGates.number? x = none) ∧
      (∀ id, (PassMarks.new 7).counted id = false) ∧
      ∃ counts marks' db',
        mixedGates.computeTree ⟨6⟩ .default (.new 7) = .ok (counts, marks', db') ∧
        ([⟨5⟩, ⟨0⟩, ⟨1⟩, ⟨6⟩] : List ExprId).map db'.number? = [some 1, some 2, none, some 3] ∧
        ∀ x ∈ ([⟨0⟩, ⟨1⟩, ⟨2⟩, ⟨3⟩, ⟨4⟩, ⟨5⟩, ⟨6⟩] : List ExprId),
          db'.number? x ≠ none ↔ mixedGates.isEffectivelyExcluded x = .ok false ∧
            ∃ n ∈ ([⟨0⟩, ⟨1⟩, ⟨2⟩, ⟨3⟩, ⟨4⟩, ⟨5⟩, ⟨6⟩] : List ExprId), ∃ points,
              mixedGates.scoredPoints n .default = .ok (some points) ∧
                (∃ p ∈ points, p.site = x) ∧ ∃ p ∈ points, p.hit = false ∧ p.excluded = false := by
  have hrun : (mixedGates.computeTree ⟨6⟩ .default (.new 7)).map (fun result =>
      ([⟨5⟩, ⟨0⟩, ⟨1⟩, ⟨6⟩] : List ExprId).map result.2.2.number?) =
        .ok [some 1, some 2, none, some 3] := by decide
  have hnone : ∀ x ∈ ([⟨0⟩, ⟨1⟩, ⟨2⟩, ⟨3⟩, ⟨4⟩, ⟨5⟩, ⟨6⟩] : List ExprId),
      mixedGates.number? x = none := by decide
  refine ⟨by decide, by decide, hnone, PassMarks.counted_new 7, ?_⟩
  rcases h : mixedGates.computeTree ⟨6⟩ .default (.new 7) with fault | ⟨counts, marks', db'⟩
  · rw [h] at hrun
    cases hrun
  · rw [h] at hrun
    exact ⟨counts, marks', db', rfl, Except.ok.inj hrun,
      (computeTree_numbers (show mixedGates.check = .ok () by decide)
        (show mixedGates.stmt? ⟨0⟩ = some ⟨⟨6⟩, false⟩ by decide) .default
        (show mixedGates.subtree ⟨6⟩ = .ok [⟨0⟩, ⟨1⟩, ⟨2⟩, ⟨3⟩, ⟨4⟩, ⟨5⟩, ⟨6⟩] by decide) hnone
        (PassMarks.counted_new 7) h).1⟩

end Database

end LogicCoverage
