import LogicCoverage.Bits.Mask

/-!
# Masks as vectors of bits

A mask that is made empty, clear or full, and then written to, has just the words that its width
takes and no bit beyond the width. Every write keeps this, so that such a mask is known from its width
and from what it reads: the constructor's value, until a position is written, and what was last
written there after that. Hence the bits of two masks can be compared by comparing the masks, and
filling a clear mask position by position gives the full one.
-/

namespace LogicCoverage.BitMask

/-! ## Masks without stray bits -/

/-- As many words as the width takes, and no bit set at or beyond the width. -/
structure Canonical (m : BitMask) : Prop where
  size_words : m.words.size = wordCount m.width
  padding {k : Nat} {word : UInt64} (hk : m.words[k]? = some word) {j : Nat}
    (hj : m.width.toNat ≤ 64 * k + j) : word.toBitVec.getLsbD j = false

/-- A mask without bits has no words. -/
theorem canonical_empty : empty.Canonical where
  size_words := rfl
  padding hk := nomatch hk

/-- A mask of zeros has its words, and no stray bits. -/
theorem canonical_zeros (w : UInt32) : (zeros w).Canonical where
  size_words := size_words_zeros w
  padding hk j hj := by
    obtain ⟨-, rfl⟩ := Array.getElem?_eq_some_iff.1 hk
    simp [zeros]

/-- A full mask has no stray bits in its last word. -/
theorem canonical_ones (w : UInt32) : (ones w).Canonical where
  size_words := size_words_ones w
  padding {k word} hk j hj := by
    have hlt : k < wordCount w := by
      rw [← size_words_ones w]
      exact (Array.getElem?_eq_some_iff.1 hk).1
    have hword : word = lowOnes (min 64 (w.toNat - 64 * k)) :=
      Option.some.inj (hk.symm.trans (getElem?_onesWords hlt))
    have hout : ¬ (j < 64 ∧ j < min 64 (w.toNat - 64 * k)) := by
      rw [width_ones] at hj
      omega
    rw [hword, getLsbD_lowOnes, ← Bool.decide_and, decide_eq_false hout]

/-- A position of a word, as long as it lies below a width, is the position of a bit. -/
theorem exists_bit {w : UInt32} {k j : Nat} (hj : j < 64) (h : 64 * k + j < w.toNat) :
    ∃ bit, bit < w ∧ wordIndex bit = k ∧ bitIndex bit = j := by
  have hbit : (UInt32.ofNat (64 * k + j)).toNat = 64 * k + j :=
    UInt32.toNat_ofNat_of_lt' (Nat.lt_trans h w.toNat_lt)
  refine ⟨UInt32.ofNat (64 * k + j), ?_, ?_, ?_⟩
  · rw [UInt32.lt_iff_toNat_lt, hbit]
    exact h
  · rw [wordIndex, hbit]
    omega
  · rw [bitIndex, hbit]
    omega

namespace Canonical

variable {m m' : BitMask} {bit : UInt32} {value : Bool}

/-- Masks without stray bits are told apart by their widths and by what they read. -/
theorem ext (h : m.Canonical) (h' : m'.Canonical) (hw : m.width = m'.width)
    (hget : ∀ bit, m.get bit = m'.get bit) : m = m' := by
  have hsize : m.words.size = m'.words.size := by rw [h.size_words, h'.size_words, hw]
  have hwords : m.words = m'.words := by
    refine Array.ext hsize fun k hk hk' => ?_
    have hword : m.words[k]? = some m.words[k] := Array.getElem?_eq_getElem hk
    have hword' : m'.words[k]? = some m'.words[k] := Array.getElem?_eq_getElem hk'
    refine UInt64.eq_of_toBitVec_eq (BitVec.eq_of_getLsbD_eq fun j hj => ?_)
    -- below the width the bit can be read; at or beyond it neither mask has one
    by_cases hin : 64 * k + j < m.width.toNat
    · obtain ⟨bit, hlt, rfl, rfl⟩ := exists_bit hj hin
      have hread := hget bit
      rw [get_of_lt hlt hword, get_of_lt (hw ▸ hlt) hword'] at hread
      exact Except.ok.inj hread
    · have hout : m.width.toNat ≤ 64 * k + j := Nat.le_of_not_lt hin
      rw [h.padding hword hout, h'.padding hword' (hw ▸ hout)]
  exact BitMask.ext hw hwords

/-- The word that a write overwrites gets no bit beyond the width, and the others stay. -/
theorem set (h : m.Canonical) (hset : m.set bit value = .ok m') : m'.Canonical := by
  obtain ⟨hbit, old, hold, rfl⟩ := set_eq_ok_iff.1 hset
  refine ⟨by simpa using h.size_words, fun {k word} hk j hj => ?_⟩
  by_cases hkb : wordIndex bit = k
  · subst hkb
    rw [Array.getElem?_setIfInBounds_self_of_lt (Array.getElem?_eq_some_iff.1 hold).1] at hk
    -- the bit that is written lies below the width, so it is none of the padding
    have hne : j ≠ bitIndex bit := by
      rintro rfl
      rw [wordIndex_bitIndex] at hj
      exact absurd hbit (UInt32.not_lt.2 hj)
    rw [← Option.some.inj hk, getLsbD_setWord (bitIndex_lt bit), if_neg hne]
    exact h.padding hold hj
  · rw [Array.getElem?_setIfInBounds_ne hkb] at hk
    exact h.padding hk hj

/-- Every bit below the width can be written. -/
theorem exists_set (h : m.Canonical) (hbit : bit < m.width) (value : Bool) :
    ∃ m', m.set bit value = .ok m' := by
  obtain ⟨word, hword⟩ := exists_word (Nat.le_of_eq h.size_words.symm) hbit
  exact ⟨_, set_eq_ok_iff.2 ⟨hbit, word, hword, rfl⟩⟩

end Canonical

/-- No bit at or beyond the width can be written. -/
theorem set_of_width_le {m : BitMask} {bit : UInt32} (h : m.width ≤ bit) (value : Bool) :
    m.set bit value = .error (.bitOutsideMask bit m.width) := if_pos h

/-! ## Sequences of writes -/

/-- The value that was last written at a position. -/
def lastWritten? (writes : List (UInt32 × Bool)) (bit : UInt32) : Option Bool :=
  writes.reverse.lookup bit

/-- Later writes win. -/
theorem lastWritten?_cons (write : UInt32 × Bool) (writes : List (UInt32 × Bool)) (bit : UInt32) :
    lastWritten? (write :: writes) bit =
      (lastWritten? writes bit).or (if bit = write.1 then some write.2 else none) := by
  rw [lastWritten?, List.reverse_cons, List.lookup_append, lastWritten?, List.lookup_cons]
  by_cases h : bit = write.1
  · rw [beq_iff_eq.2 h, if_pos h]
  · rw [beq_false_of_ne h, if_neg h, List.lookup_nil]

variable {m m' : BitMask} {writes : List (UInt32 × Bool)}

/-- Writes are carried out one after the other. -/
theorem setAll_cons_eq_ok_iff {write : UInt32 × Bool} :
    m.setAll (write :: writes) = .ok m' ↔
      ∃ m₁, m.set write.1 write.2 = .ok m₁ ∧ m₁.setAll writes = .ok m' := by
  rw [setAll, List.foldlM_cons, bind_eq_ok_iff]
  rfl

/-- Writes leave the width alone. -/
theorem width_setAll (h : m.setAll writes = .ok m') : m'.width = m.width := by
  induction writes generalizing m with
  | nil => cases h; rfl
  | cons write writes ih =>
    obtain ⟨m₁, hset, hrest⟩ := setAll_cons_eq_ok_iff.1 h
    rw [ih hrest, width_set hset]

/-- A position reads what was last written there, and what it read before if nothing was. -/
theorem get_setAll (h : m.setAll writes = .ok m') (bit : UInt32) :
    m'.get bit = ((lastWritten? writes bit).map Except.ok).getD (m.get bit) := by
  induction writes generalizing m with
  | nil => cases h; rfl
  | cons write writes ih =>
    obtain ⟨m₁, hset, hrest⟩ := setAll_cons_eq_ok_iff.1 h
    rw [ih hrest, lastWritten?_cons, get_set hset]
    cases lastWritten? writes bit with
    | some value => rfl
    | none => by_cases hbit : bit = write.1 <;> simp [hbit]

/-- Writes within the width leave no stray bits. -/
theorem Canonical.setAll (hm : m.Canonical) (h : m.setAll writes = .ok m') : m'.Canonical := by
  induction writes generalizing m with
  | nil => cases h; exact hm
  | cons write writes ih =>
    obtain ⟨m₁, hset, hrest⟩ := setAll_cons_eq_ok_iff.1 h
    exact ih (hm.set hset) hrest

/-- A sequence of writes succeeds just if each of them stays below the width. -/
theorem Canonical.exists_setAll_iff (hm : m.Canonical) :
    (∃ m', m.setAll writes = .ok m') ↔ ∀ write ∈ writes, write.1 < m.width := by
  induction writes generalizing m with
  | nil => exact ⟨fun _ => nofun, fun _ => ⟨m, rfl⟩⟩
  | cons write writes ih =>
    simp only [setAll_cons_eq_ok_iff, List.forall_mem_cons]
    constructor
    · rintro ⟨m', m₁, hset, hrest⟩
      refine ⟨(set_eq_ok_iff.1 hset).1, ?_⟩
      rw [← width_set hset]
      exact (ih (hm.set hset)).1 ⟨m', hrest⟩
    · rintro ⟨hbit, hwrites⟩
      obtain ⟨m₁, hset⟩ := hm.exists_set hbit write.2
      rw [← width_set hset] at hwrites
      obtain ⟨m', hrest⟩ := (ih (hm.set hset)).2 hwrites
      exact ⟨m', m₁, hset, hrest⟩

/-- What was written last was written. -/
theorem mem_of_lastWritten? {bit : UInt32} {value : Bool} (h : lastWritten? writes bit = some value) :
    (bit, value) ∈ writes := by
  obtain ⟨after, before, hsplit, -⟩ := List.lookup_eq_some_iff.1 h
  rw [← List.mem_reverse, hsplit]
  exact List.mem_append_right after List.mem_cons_self

/-- Nothing was written where no write is the last. -/
theorem notMem_of_lastWritten? {bit : UInt32} (h : lastWritten? writes bit = none) (value : Bool) :
    (bit, value) ∉ writes := by
  intro hmem
  have hne := List.lookup_eq_none_iff.1 h (bit, value) (List.mem_reverse.2 hmem)
  exact bne_iff_ne.1 hne rfl

/-- A write of `true` at every position below a width. -/
def fillWrites (w : UInt32) : List (UInt32 × Bool) :=
  (List.range w.toNat).map fun n => (UInt32.ofNat n, true)

/-- Every bit within the width is written once, as a one. -/
theorem mem_fillWrites {w bit : UInt32} {value : Bool} :
    (bit, value) ∈ fillWrites w ↔ bit < w ∧ value = true := by
  rw [fillWrites, List.mem_map]
  constructor
  · rintro ⟨n, hn, ⟨⟩⟩
    have hlt := List.mem_range.1 hn
    refine ⟨?_, rfl⟩
    rwa [UInt32.lt_iff_toNat_lt, UInt32.toNat_ofNat_of_lt' (Nat.lt_trans hlt w.toNat_lt)]
  · rintro ⟨hlt, rfl⟩
    exact ⟨bit.toNat, List.mem_range.2 hlt, by rw [UInt32.ofNat_toNat]⟩

/-- The full mask is what filling a clear one position by position gives. -/
theorem setAll_fillWrites (w : UInt32) : (zeros w).setAll (fillWrites w) = .ok (ones w) := by
  have hbelow : ∀ write ∈ fillWrites w, write.1 < (zeros w).width := fun write hwrite =>
    (mem_fillWrites.1 hwrite).1
  obtain ⟨m, hm⟩ := (canonical_zeros w).exists_setAll_iff.2 hbelow
  have hget (bit : UInt32) : m.get bit = (ones w).get bit := by
    rw [get_setAll hm, get_zeros, get_ones]
    cases hlast : lastWritten? (fillWrites w) bit with
    | some value =>
      obtain ⟨hlt, rfl⟩ := mem_fillWrites.1 (mem_of_lastWritten? hlast)
      rw [decide_eq_true hlt]
      rfl
    | none =>
      have hout : ¬ bit < w := fun hlt =>
        notMem_of_lastWritten? hlast true (mem_fillWrites.2 ⟨hlt, rfl⟩)
      rw [decide_eq_false hout]
      rfl
  have hwidth : m.width = w := width_setAll hm
  rw [hm, ((canonical_zeros w).setAll hm).ext (canonical_ones w) hwidth hget]

/-! ## Masks as they are made -/

/-- What a mask is before it is written to. -/
inductive Origin where
  | empty
  | zeros (width : UInt32)
  | ones (width : UInt32)

namespace Origin

def mask : Origin → BitMask
  | empty => .empty
  | zeros width => .zeros width
  | ones width => .ones width

/-- What every position below the width reads at first. -/
def fill : Origin → Bool
  | ones _ => true
  | _ => false

/-- All masks that one can start from are canonical. -/
theorem canonical : (o : Origin) → o.mask.Canonical
  | empty => canonical_empty
  | zeros width => canonical_zeros width
  | ones width => canonical_ones width

/-- A mask that one starts from is all ones or all zeros. -/
theorem get_mask {o : Origin} {bit : UInt32} (h : bit < o.mask.width) :
    o.mask.get bit = .ok o.fill := by
  cases o with
  | empty => exact absurd h UInt32.not_lt_zero
  | zeros width => exact get_zeros width bit
  | ones width => exact (get_ones width bit).trans (congrArg _ (decide_eq_true h))

/-- A sequence of writes to a new mask succeeds just if each of them stays below the width. It leaves a
mask of that width without stray bits, in which every position below the width reads what was last
written there and every other one reads `false`; another write succeeds just below the width and
changes nothing but its position. Two such masks are equal just if they have the same width and read
the same. -/
theorem setAll_represents (o : Origin) (writes : List (UInt32 × Bool)) :
    ((∃ m, o.mask.setAll writes = .ok m) ↔ ∀ write ∈ writes, write.1 < o.mask.width) ∧
    ∀ m, o.mask.setAll writes = .ok m →
      m.width = o.mask.width ∧ m.Canonical ∧
      (∀ bit, m.get bit =
        .ok (if bit < m.width then (lastWritten? writes bit).getD o.fill else false)) ∧
      (∀ bit value, m.width ≤ bit → m.set bit value = .error (.bitOutsideMask bit m.width)) ∧
      (∀ bit value, bit < m.width → ∃ m', m.set bit value = .ok m' ∧
        ∀ other, m'.get other = if other = bit then .ok value else m.get other) ∧
      ∀ (o' : Origin) (writes' : List (UInt32 × Bool)) (m' : BitMask),
        o'.mask.setAll writes' = .ok m' →
          (m = m' ↔ m.width = m'.width ∧ ∀ bit, m.get bit = m'.get bit) := by
  refine ⟨o.canonical.exists_setAll_iff, fun m hm => ?_⟩
  have hwidth := width_setAll hm
  have hcanonical := o.canonical.setAll hm
  refine ⟨hwidth, hcanonical, fun bit => ?_, fun bit value hle => set_of_width_le hle value,
    fun bit value hlt => ?_, fun o' writes' m' hm' => ?_⟩
  · by_cases hlt : bit < m.width
    · rw [if_pos hlt, get_setAll hm, get_mask (hwidth ▸ hlt)]
      cases lastWritten? writes bit <;> rfl
    · rw [if_neg hlt, get_of_width_le (UInt32.not_lt.1 hlt)]
  · obtain ⟨m', hset⟩ := hcanonical.exists_set hlt value
    exact ⟨m', hset, get_set hset⟩
  · constructor
    · rintro rfl
      exact ⟨rfl, fun _ => rfl⟩
    · rintro ⟨hw, hget⟩
      exact hcanonical.ext (o'.canonical.setAll hm') hw hget

/-- Of a full mask of one bit more than a word, two bits are cleared and one of them is set again; of
another one, only one bit is cleared. -/
theorem setAll_represents_twoWords :
    ∃ m m', (ones 65).mask.setAll [(64, false), (63, false), (64, true)] = .ok m ∧
      (ones 65).mask.setAll [(63, false)] = .ok m' ∧ m.words.size = 2 ∧
      m.get 63 = .ok false ∧ m.get 64 = .ok true ∧ m.get 65 = .ok false ∧
      m.set 65 true = .error (.bitOutsideMask 65 65) ∧
      (m = m' ↔ m.width = m'.width ∧ ∀ bit, m.get bit = m'.get bit) := by
  have hm : (ones 65).mask.setAll [(64, false), (63, false), (64, true)] =
      .ok ⟨65, #[0x7fffffffffffffff, 1]⟩ := rfl
  have hm' : (ones 65).mask.setAll [(63, false)] = .ok ⟨65, #[0x7fffffffffffffff, 1]⟩ := rfl
  obtain ⟨-, hcanonical, hget, hset, -, heq⟩ := (setAll_represents (ones 65) _).2 _ hm
  exact ⟨_, _, hm, hm', hcanonical.size_words, hget 63, hget 64, hget 65, hset 65 true (by decide),
    heq _ _ _ hm'⟩

end Origin

end LogicCoverage.BitMask
