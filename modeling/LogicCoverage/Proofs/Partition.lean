import LogicCoverage.Proofs.Chains
import LogicCoverage.Proofs.TreeScore

/-!
# Chains partition the gates and the points

Every gate with a neighbour of its family belongs to one chain, every node that feeds such a gate is
an operand of one chain, and no point of a tree is counted twice.
-/

namespace LogicCoverage.Database

open Relation

variable {db : Database} {cfg : ScoringConfig} {id root g r r' b : ExprId} {e : Expression}

/-! ## Points -/

namespace Forest

variable (hf : db.Forest) (hchains : cfg.chains = true)

include hf

/-- A node is the site of its own points, and the points of operands belong to the root of the chain
that the operand feeds. -/
theorem owner_of_mem_points (h : db.expr? id = some e) {p : Point}
    (hp : p ∈ db.points cfg id) :
    (p.kind.isOperand = false ∧ p.site = id) ∨
      (p.kind.isOperand = true ∧ db.chainRole id cfg = .ok (some .root) ∧
        ∃ m, ReflTransGen db.Joined m id ∧ db.Under p.site m) := by
  obtain ⟨points, hpoints, hp⟩ := mem_points_iff.mp hp
  have hkey : p.key ∈ points.map Point.key := List.mem_map_of_mem hp
  rcases hf.scoredPoints_cases h hpoints with ⟨hrole, hchain⟩ | ⟨-, hsingle⟩
  · obtain ⟨operands, hops⟩ := exists_chainOperands_of_chainPoints hchain
    have hfeeds := hf.feeds_of_chainOperands h (isGate_of_chainRole h hrole) hops
    rw [map_key_chainPoints h hops hchain, List.mem_append, List.mem_flatMap] at hkey
    rcases hkey with ⟨o, ho, hkey⟩ | hkey
    · obtain ⟨rfl, hkind⟩ : o = p.site ∧ p.kind = _ := (mem_keysAt hkey).imp_left Eq.symm
      obtain ⟨m, hm, hunder, -⟩ := (hfeeds.mem_iff _).mp ho
      exact .inr ⟨hkind ▸ Category.isOperand_operandKind _, hrole, m, hm, hunder⟩
    · obtain ⟨hsite, hkind⟩ : p.site = id ∧ p.kind = _ := mem_keysAt hkey
      exact .inl ⟨hkind ▸ Category.isOperand_wholeKind _, hsite⟩
  · rw [map_key_singlePoints h hsingle, List.mem_flatMap] at hkey
    obtain ⟨kind, hmem, hkey⟩ := hkey
    obtain ⟨hsite, hkind⟩ : p.site = id ∧ p.kind = kind := mem_keysAt hkey
    exact .inl ⟨hkind ▸ Category.not_isOperand_of_mem_kinds kind hmem, hsite⟩

/-- No two points of a node have the same site, kind and bit. -/
theorem nodup_keys_points (h : db.expr? id = some e) :
    ((db.points cfg id).map Point.key).Nodup := by
  rcases ho : db.scoredPoints id cfg with _ | (_ | points)
  · rw [points, ho]
    exact List.nodup_nil
  · rw [points_of_scoredPoints ho]
    exact List.nodup_nil
  rw [points_of_scoredPoints ho, Option.getD_some]
  rcases hf.scoredPoints_cases h ho with ⟨hrole, hchain⟩ | ⟨-, hsingle⟩
  · obtain ⟨operands, hops⟩ := exists_chainOperands_of_chainPoints hchain
    have hfeeds := hf.feeds_of_chainOperands h (isGate_of_chainRole h hrole) hops
    rw [map_key_chainPoints h hops hchain]
    refine List.Nodup.append ?_ (nodup_keysAt _ _ _) ?_
    · refine List.nodup_flatMap.mpr ⟨fun o _ => nodup_keysAt _ _ _, ?_⟩
      exact hfeeds.ordered.imp fun hleft => disjoint_keysAt _ (.inl (hf.ne_of_leftOf hleft))
    · intro key hkey
      obtain ⟨o, -, hkey⟩ := List.mem_flatMap.mp hkey
      refine disjoint_keysAt _ (.inr fun hkind => ?_) hkey
      have hoperand := Category.isOperand_operandKind e.category
      rw [hkind, Category.isOperand_wholeKind] at hoperand
      cases hoperand
  · rw [map_key_singlePoints h hsingle]
    refine List.nodup_flatMap.mpr ⟨fun kind _ => nodup_keysAt _ _ _, ?_⟩
    exact (Category.nodup_kinds _).imp fun hne => disjoint_keysAt _ (.inr hne)

include hchains

/-- Two nodes have no point in common. -/
theorem eq_of_key_eq {id' : ExprId} {e' : Expression} (h : db.expr? id = some e)
    (h' : db.expr? id' = some e') {p p' : Point} (hp : p ∈ db.points cfg id)
    (hp' : p' ∈ db.points cfg id') (hkey : p.key = p'.key) : id = id' := by
  have hsite : p.site = p'.site := congrArg (·.1) hkey
  have hkind : p.kind = p'.kind := congrArg (·.2.1) hkey
  rcases hf.owner_of_mem_points h hp with ⟨hop, hown⟩ | ⟨hop, hrole, m, hm, hunder⟩ <;>
    rcases hf.owner_of_mem_points h' hp' with ⟨hop', hown'⟩ | ⟨hop', hrole', m', hm', hunder'⟩
  · exact hown.symm.trans (hsite.trans hown')
  · cases (hop.symm.trans (congrArg _ hkind)).trans hop'
  · cases (hop.symm.trans (congrArg _ hkind)).trans hop'
  · rw [hsite] at hunder
    cases Under.right_unique hunder hunder'
    exact (hf.isTop_of_chainRole hchains hrole).unique (hf.isTop_of_chainRole hchains hrole') hm hm'

/-- No two points of a tree have the same site, kind and bit. -/
theorem nodup_keys_treePoints (h : db.expr? root = some e) :
    ((db.treePoints cfg root).map Point.key).Nodup := by
  rw [treePoints, units, ← List.flatMap_def, List.map_flatMap]
  refine List.nodup_flatMap.mpr ⟨fun n hn => ?_, ?_⟩
  · obtain ⟨en, hen⟩ := hf.expr?_of_mem_nodes h hn
    exact hf.nodup_keys_points hen
  · refine (hf.nodup_nodes h).pairwise_of_forall_ne fun n hn n' hn' hne key hkey hkey' => ?_
    obtain ⟨en, hen⟩ := hf.expr?_of_mem_nodes h hn
    obtain ⟨en', hen'⟩ := hf.expr?_of_mem_nodes h hn'
    obtain ⟨p, hp, rfl⟩ := List.mem_map.mp hkey
    obtain ⟨p', hp', heq⟩ := List.mem_map.mp hkey'
    exact hne (hf.eq_of_key_eq hchains hen hen' hp hp' heq.symm)

end Forest

/-! ## Chains -/

/-- A chain and its operands, as its root shows them. -/
structure ChainAt (db : Database) (cfg : ScoringConfig) (root : ExprId) (operands : List ExprId)
    (depth : UInt32) : Prop where
  nodup_members : (db.members root).Nodup
  mem_members (g : ExprId) : g ∈ db.members root ↔ db.Chained g root
  top : ∀ g ∈ db.members root, ReflTransGen db.Joined g root
  interior : ∀ g ∈ db.members root, g ≠ root → db.chainRole g cfg = .ok (some .interior)
  chainOperands : db.chainOperands root = .ok operands
  length : operands.length = (db.members root).length + 1
  nodup_operands : operands.Nodup
  ordered : operands.Pairwise db.LeftOf
  mem_operands (b : ExprId) : b ∈ operands ↔
    db.isChainBoundary b cfg = .ok true ∧ ∃ g ∈ db.members root, db.Under b g
  depth_members : ∀ g ∈ db.members root, db.depthOf g = .ok depth
  depth_operands : ∀ b ∈ operands, ∃ below, db.depthOf b = .ok below ∧
    below.toNat = depth.toNat + 1

/-- Every gate of the database has both inputs. -/
def FullyWired (db : Database) : Prop :=
  ∀ e ∈ db.exprs, e.category.isGate = true → e.left ≠ none ∧ e.right ≠ none

instance : Decidable db.FullyWired :=
  inferInstanceAs (Decidable (∀ e ∈ db.exprs, e.category.isGate = true →
    e.left ≠ none ∧ e.right ≠ none))

theorem FullyWired.wired (hw : db.FullyWired) (id : ExprId) : db.Wired id :=
  fun _ _ e he => hw e (Array.mem_of_getElem? he)

namespace Forest

variable (hf : db.Forest) (hchains : cfg.chains = true)

include hf hchains

/-- A gate belongs to the chain of one root. -/
theorem existsUnique_root (hg : db.InChain g) :
    ∃! r, db.Chained g r ∧ db.chainRole r cfg = .ok (some .root) := by
  obtain ⟨r, hup, hrole⟩ := hf.exists_root hchains hg
  have htop := hf.isTop_of_chainRole hchains hrole
  refine ⟨r, ⟨.of_joined hup, hrole⟩, ?_⟩
  rintro r' ⟨hchained, hrole'⟩
  have htop' := hf.isTop_of_chainRole hchains hrole'
  exact htop'.unique htop (htop'.chained_iff.mp hchained) hup

theorem exists_chainAt (hw : db.FullyWired) (hrole : db.chainRole r cfg = .ok (some .root)) :
    ∃ operands depth, db.ChainAt cfg r operands depth := by
  obtain ⟨e, he⟩ := expr?_of_chainRole hchains hrole
  have hgate := isGate_of_chainRole he hrole
  have htop := hf.isTop_of_chainRole hchains hrole
  have hmem (g : ExprId) : g ∈ db.members r ↔ ReflTransGen db.Joined g r :=
    hf.mem_members_iff he hgate
  obtain ⟨operands, hops, hfeeds⟩ := hf.exists_operands he hgate
    (hf.wiredChain_of_wired he hgate (hw.wired r))
  refine ⟨operands, db.depth r, ?_⟩
  exact {
    nodup_members := hf.nodup_members he
    mem_members := fun g => (hmem g).trans htop.chained_iff.symm
    top := fun g hg => (hmem g).mp hg
    interior := fun g hg hne => hf.chainRole_eq_interior hchains ((hmem g).mp hg) hne
    chainOperands := hops
    length := hfeeds.length
    nodup_operands := hfeeds.ordered.imp hf.ne_of_leftOf
    ordered := hfeeds.ordered
    mem_operands := fun b => by
      rw [hfeeds.mem_iff]
      constructor
      · rintro ⟨p, hp, hunder, hnot⟩
        obtain ⟨eb, heb, -⟩ := id hunder
        have hin := hf.inChain_of_joined hchains hrole hp
        exact ⟨(hf.isChainBoundary_iff hchains heb).mpr ⟨p, hunder, hin, hnot⟩,
          p, (hmem p).mpr hp, hunder⟩
      · rintro ⟨hboundary, p, hp, hunder⟩
        obtain ⟨eb, heb, -⟩ := id hunder
        obtain ⟨p', hunder', -, hnot⟩ := (hf.isChainBoundary_iff hchains heb).mp hboundary
        cases Under.right_unique hunder hunder'
        exact ⟨p, (hmem p).mp hp, hunder, hnot⟩
    depth_members := fun g hg => by
      obtain ⟨eg, heg⟩ := hf.expr?_of_mem_nodes he ((hf.members_sublist he).subset hg)
      rw [hf.depthOf_eq heg, hf.depth_eq_of_joined ((hmem g).mp hg)]
    depth_operands := fun b hb => by
      obtain ⟨p, hp, hunder, hnot⟩ := (hfeeds.mem_iff b).mp hb
      obtain ⟨eb, heb, -⟩ := id hunder
      refine ⟨db.depth b, hf.depthOf_eq heb, ?_⟩
      rw [hf.depth_of_feeds hunder hnot, hf.depth_eq_of_joined hp] }

/-- A node is an operand of one chain only. -/
theorem eq_of_mem_operands {operands operands' : List ExprId} {depth depth' : UInt32}
    (h : db.ChainAt cfg r operands depth) (h' : db.ChainAt cfg r' operands' depth')
    (hrole : db.chainRole r cfg = .ok (some .root))
    (hrole' : db.chainRole r' cfg = .ok (some .root)) (hb : b ∈ operands) (hb' : b ∈ operands') : r = r' := by
  obtain ⟨-, p, hp, hunder⟩ := (h.mem_operands b).mp hb
  obtain ⟨-, p', hp', hunder'⟩ := (h'.mem_operands b).mp hb'
  cases Under.right_unique hunder hunder'
  exact (hf.isTop_of_chainRole hchains hrole).unique (hf.isTop_of_chainRole hchains hrole')
    (h.top p hp) (h'.top p hp')

end Forest

/-- On a consistent database in which no gate lacks an input, chains partition the gates that have a
neighbour of their family: each belongs to the chain of one root, and the other members are
interior. A chain has one operand more than members, from left to right and each once: these are the
nodes that feed one of its members. They lie one level below the members, which share theirs. No
node is an operand of two chains, and every node that feeds a chain is an operand of one. Hence no
two points of a statement's tree have the same site, kind and bit. -/
theorem chains_partition (hdb : db.check = .ok ()) (hw : db.FullyWired)
    (hchains : cfg.chains = true) :
    (∀ g, db.InChain g → ∃! r, db.Chained g r ∧ db.chainRole r cfg = .ok (some .root)) ∧
    (∀ r, db.chainRole r cfg = .ok (some .root) →
      ∃ operands depth, db.ChainAt cfg r operands depth) ∧
    (∀ r r' operands operands', db.chainRole r cfg = .ok (some .root) →
      db.chainRole r' cfg = .ok (some .root) → db.chainOperands r = .ok operands →
        db.chainOperands r' = .ok operands' → r ≠ r' → operands.Disjoint operands') ∧
    (∀ b, db.isChainBoundary b cfg = .ok true → ∃ r operands,
      db.chainRole r cfg = .ok (some .root) ∧ db.chainOperands r = .ok operands ∧ b ∈ operands) ∧
    ∀ stmt st, db.stmt? stmt = some st →
      ((db.treePoints cfg st.root).map fun p => (p.site, p.kind, p.bit)).Nodup := by
  have hf := forest_of_check hdb
  refine ⟨fun g hg => hf.existsUnique_root hchains hg,
    fun r hrole => hf.exists_chainAt hchains hw hrole, ?_, ?_, ?_⟩
  · intro r r' operands operands' hrole hrole' hops hops' hne b hb hb'
    obtain ⟨found, depth, hchain⟩ := hf.exists_chainAt hchains hw hrole
    obtain ⟨found', depth', hchain'⟩ := hf.exists_chainAt hchains hw hrole'
    cases hops.symm.trans hchain.chainOperands
    cases hops'.symm.trans hchain'.chainOperands
    exact hne (hf.eq_of_mem_operands hchains hchain hchain' hrole hrole' hb hb')
  · intro b hb
    obtain ⟨eb, heb⟩ : ∃ eb, db.expr? b = some eb := by
      rw [isChainBoundary, if_pos hchains] at hb
      obtain ⟨eb, heb, -⟩ := bind_eq_ok_iff.mp hb
      exact ⟨eb, db.expr_eq_ok_iff.mp heb⟩
    obtain ⟨p, hunder, hin, -⟩ := (hf.isChainBoundary_iff hchains heb).mp hb
    obtain ⟨r, hup, hrole⟩ := hf.exists_root hchains hin
    obtain ⟨operands, depth, hchain⟩ := hf.exists_chainAt hchains hw hrole
    have hp : p ∈ db.members r := (hchain.mem_members p).mpr (.of_joined hup)
    exact ⟨r, operands, hrole, hchain.chainOperands,
      (hchain.mem_operands b).mpr ⟨hb, p, hp, hunder⟩⟩
  · intro stmt st hs
    obtain ⟨er, her, -⟩ := hf.root hs
    exact hf.nodup_keys_treePoints hchains her

/-- The chain of the two AND gates has three operands, and the OR gate is one of them. -/
theorem chains_partition_mixedGates :
    mixedGates.check = .ok () ∧ mixedGates.FullyWired ∧ ScoringConfig.default.chains = true ∧
      mixedGates.chainRole ⟨6⟩ .default = .ok (some .root) ∧
      mixedGates.members ⟨6⟩ = [⟨2⟩, ⟨6⟩] ∧
      ∃ depth, mixedGates.ChainAt .default ⟨6⟩ [⟨0⟩, ⟨1⟩, ⟨5⟩] depth := by
  have hdb : mixedGates.check = .ok () := by decide
  have hw : mixedGates.FullyWired := by decide
  have hrole : mixedGates.chainRole ⟨6⟩ .default = .ok (some .root) := by decide
  obtain ⟨-, hroots, -⟩ := chains_partition hdb hw (show ScoringConfig.default.chains = true by rfl)
  obtain ⟨operands, depth, hchain⟩ := hroots ⟨6⟩ hrole
  have hops : mixedGates.chainOperands ⟨6⟩ = .ok [⟨0⟩, ⟨1⟩, ⟨5⟩] := by decide
  cases hops.symm.trans hchain.chainOperands
  exact ⟨hdb, hw, rfl, hrole, by decide, depth, hchain⟩

end LogicCoverage.Database
