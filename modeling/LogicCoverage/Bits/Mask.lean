import LogicCoverage.Fault

/-!
# Bit masks

A mask holds one bit per position below its width, packed in 64-bit words, low word first. `get` is
the view that everything else is said in: the main statements say what it reads of `zeros`, of
`ones`, and of a mask in which bits were written. A mask read from a file may have any number of
words; a position whose word is absent is a fault.
-/

namespace LogicCoverage

@[ext] structure BitMask where
  width : UInt32
  words : Array UInt64
deriving DecidableEq

namespace BitMask

/-- A word and the position within it. -/
def wordIndex (bit : UInt32) : Nat := bit.toNat / 64

def bitIndex (bit : UInt32) : Nat := bit.toNat % 64

/-- The words it takes to hold a width. -/
def wordCount (width : UInt32) : Nat := (width.toNat + 63) / 64

/-- The mask of width 0. -/
def empty : BitMask := ⟨0, #[]⟩

/-- Every position false. -/
def zeros (width : UInt32) : BitMask := ⟨width, Array.replicate (wordCount width) 0⟩

/-- A word whose lowest `n` bits are set. -/
def lowOnes (n : Nat) : UInt64 := ⟨BitVec.allOnes 64 >>> (64 - n)⟩

/-- Full words, and the bits of the last word that the width reaches into. -/
def onesWords (width : UInt32) : Array UInt64 :=
  let full := Array.replicate (width.toNat / 64) (lowOnes 64)
  if width.toNat % 64 = 0 then full else full.push (lowOnes (width.toNat % 64))

/-- Every position below the width true. -/
def ones (width : UInt32) : BitMask := ⟨width, onesWords width⟩

/-- The bit at a position; positions at or beyond the width read false. -/
def get (m : BitMask) (bit : UInt32) : Checked Bool :=
  if m.width ≤ bit then .ok false
  else
    match m.words[wordIndex bit]? with
    | some word => .ok (word.toBitVec.getLsbD (bitIndex bit))
    | none => .error (.noSuchWord m.words.size (wordIndex bit))

/-- A word with one bit overwritten. -/
def setWord (word : UInt64) (i : Nat) (value : Bool) : UInt64 :=
  if value then ⟨word.toBitVec ||| BitVec.twoPow 64 i⟩
  else ⟨word.toBitVec &&& ~~~ BitVec.twoPow 64 i⟩

/-- Overwrites the bit at a position below the width. -/
def set (m : BitMask) (bit : UInt32) (value : Bool) : Checked BitMask :=
  if m.width ≤ bit then .error (.bitOutsideMask bit m.width)
  else
    match m.words[wordIndex bit]? with
    | some word =>
      .ok { m with words := m.words.setIfInBounds (wordIndex bit) (setWord word (bitIndex bit) value) }
    | none => .error (.noSuchWord m.words.size (wordIndex bit))

/-- Overwrites one bit after the other. -/
def setAll (m : BitMask) (writes : List (UInt32 × Bool)) : Checked BitMask :=
  writes.foldlM (fun m write => m.set write.1 write.2) m

@[simp] theorem width_zeros (w : UInt32) : (zeros w).width = w := rfl

@[simp] theorem width_ones (w : UInt32) : (ones w).width = w := rfl

@[simp] theorem size_words_zeros (w : UInt32) : (zeros w).words.size = wordCount w := by
  simp [zeros]

@[simp] theorem size_words_ones (w : UInt32) : (ones w).words.size = wordCount w := by
  simp only [ones, onesWords, wordCount]
  split <;> simp <;> omega

theorem wordIndex_bitIndex (bit : UInt32) : 64 * wordIndex bit + bitIndex bit = bit.toNat :=
  Nat.div_add_mod bit.toNat 64

/-- A bit within the width is in one of the words. -/
theorem wordIndex_lt {bit width : UInt32} (h : bit < width) : wordIndex bit < wordCount width := by
  have : bit.toNat < width.toNat := h
  unfold wordIndex wordCount
  omega

/-- Where there are as many words as the width takes, every position below it has one. -/
theorem exists_word {m : BitMask} (h : wordCount m.width ≤ m.words.size) {bit : UInt32}
    (hbit : bit < m.width) : ∃ word, m.words[wordIndex bit]? = some word :=
  ⟨_, Array.getElem?_eq_getElem (Nat.lt_of_lt_of_le (wordIndex_lt hbit) h)⟩

/-- A position below the width of a mask that has the words for it. -/
theorem get_of_lt {m : BitMask} {bit : UInt32} {word : UInt64} (h : bit < m.width)
    (hw : m.words[wordIndex bit]? = some word) :
    m.get bit = .ok (word.toBitVec.getLsbD (bitIndex bit)) := by
  simp [get, hw, UInt32.not_le.2 h]

/-- Positions at or beyond the width read false. -/
theorem get_of_width_le {m : BitMask} {bit : UInt32} (h : m.width ≤ bit) : m.get bit = .ok false := by
  simp [get, h]

/-- A mask of zeros reads as zeros. -/
theorem get_zeros (w bit : UInt32) : (zeros w).get bit = .ok false := by
  by_cases h : w ≤ bit
  · exact get_of_width_le h
  · have h := UInt32.not_le.1 h
    have hw : (zeros w).words[wordIndex bit]? = some 0 := by simp [zeros, wordIndex_lt h]
    simp [get_of_lt h hw]

/-- The lowest bits of a word are ones, the others zeros. -/
theorem getLsbD_lowOnes (n i : Nat) :
    (lowOnes n).toBitVec.getLsbD i = (decide (i < 64) && decide (i < n)) := by
  simp only [lowOnes, BitVec.getLsbD_ushiftRight, BitVec.getLsbD_allOnes]
  by_cases h : i < 64 <;> by_cases h' : i < n <;> simp [h, h'] <;> omega

theorem bitIndex_lt (bit : UInt32) : bitIndex bit < 64 := Nat.mod_lt _ (by decide)

/-- The bits of a word that the width reaches into are set. -/
theorem getElem?_onesWords {w : UInt32} {k : Nat} (hk : k < wordCount w) :
    (onesWords w)[k]? = some (lowOnes (min 64 (w.toNat - 64 * k))) := by
  unfold wordCount at hk
  unfold onesWords
  by_cases hfull : k < w.toNat / 64
  · have hmin : min 64 (w.toNat - 64 * k) = 64 := by omega
    simp only [hmin]
    split
    · simp [hfull]
    · rw [Array.getElem?_push_lt (by simpa using hfull)]
      simp
  · have hlast : k = w.toNat / 64 := by omega
    have hrest : w.toNat % 64 ≠ 0 := by omega
    have hmin : min 64 (w.toNat - 64 * k) = w.toNat % 64 := by omega
    rw [hmin, hlast]
    simp [hrest, Array.getElem_push]

/-- A full mask reads as ones up to its width. -/
theorem get_ones (w bit : UInt32) : (ones w).get bit = .ok (decide (bit < w)) := by
  by_cases h : w ≤ bit
  · rw [get_of_width_le h, decide_eq_false (UInt32.not_lt.2 h)]
  · have h := UInt32.not_le.1 h
    have hin : bitIndex bit < min 64 (w.toNat - 64 * wordIndex bit) := by
      have hlt : bit.toNat < w.toNat := h
      have hpos := wordIndex_bitIndex bit
      have hbit := bitIndex_lt bit
      omega
    rw [get_of_lt h (getElem?_onesWords (wordIndex_lt h)), getLsbD_lowOnes, decide_eq_true h,
      decide_eq_true (bitIndex_lt bit), decide_eq_true hin, Bool.and_self]

/-- One bit of the word is set, all others are as before. -/
theorem getLsbD_setWord {i : Nat} (hi : i < 64) (word : UInt64) (value : Bool) (j : Nat) :
    (setWord word i value).toBitVec.getLsbD j = if j = i then value else word.toBitVec.getLsbD j := by
  cases value <;> simp only [setWord, Bool.false_eq_true, if_true, if_false]
  all_goals
    simp only [BitVec.getLsbD_or, BitVec.getLsbD_and, BitVec.getLsbD_not, BitVec.getLsbD_twoPow]
    by_cases h : j = i <;> grind

/-- A bit is known by its word and its place there. -/
theorem eq_of_index_eq {a b : UInt32} (hw : wordIndex a = wordIndex b)
    (hb : bitIndex a = bitIndex b) : a = b := by
  apply UInt32.toNat_inj.1
  rw [← wordIndex_bitIndex a, ← wordIndex_bitIndex b, hw, hb]

/-- A write succeeds below the width, where there is a word, and overwrites that word. -/
theorem set_eq_ok_iff {m m' : BitMask} {bit : UInt32} {value : Bool} :
    m.set bit value = .ok m' ↔ bit < m.width ∧ ∃ word, m.words[wordIndex bit]? = some word ∧
      m' = { m with
        words := m.words.setIfInBounds (wordIndex bit) (setWord word (bitIndex bit) value) } := by
  unfold set
  split
  · rename_i hle
    exact ⟨nofun, fun h => absurd h.1 (UInt32.not_lt.2 hle)⟩
  · rename_i hlt
    split
    · rename_i word hword
      constructor
      · intro h
        exact ⟨UInt32.not_le.1 hlt, word, hword, (Except.ok.inj h).symm⟩
      · rintro ⟨-, word', hword', rfl⟩
        cases hword.symm.trans hword'
        rfl
    · rename_i hnone
      exact ⟨nofun, fun ⟨_, _, hword, _⟩ => nomatch hnone.symm.trans hword⟩

theorem width_set {m m' : BitMask} {bit : UInt32} {value : Bool} (h : m.set bit value = .ok m') :
    m'.width = m.width := by
  obtain ⟨-, _, -, rfl⟩ := set_eq_ok_iff.1 h
  rfl

/-- Writing a bit changes what is read there and nowhere else. -/
theorem get_set {m m' : BitMask} {bit : UInt32} {value : Bool} (h : m.set bit value = .ok m')
    (other : UInt32) : m'.get other = if other = bit then .ok value else m.get other := by
  obtain ⟨hb, word, hword, rfl⟩ := set_eq_ok_iff.1 h
  have hlt : wordIndex bit < m.words.size := (Array.getElem?_eq_some_iff.1 hword).1
  by_cases ho : other = bit
  · subst ho
    unfold get
    simp [UInt32.not_le.2 hb, Array.getElem?_setIfInBounds_self_of_lt hlt,
      getLsbD_setWord (bitIndex_lt other)]
  · simp only [ho, if_false]
    by_cases hi : wordIndex other = wordIndex bit
    · have hj : bitIndex other ≠ bitIndex bit := fun e => ho (eq_of_index_eq hi e)
      unfold get
      simp only [hi, Array.getElem?_setIfInBounds_self_of_lt hlt, hword,
        getLsbD_setWord (bitIndex_lt bit), hj, if_false]
    · unfold get
      simp only [Array.getElem?_setIfInBounds_ne (Ne.symm hi), Array.size_setIfInBounds]

end BitMask

end LogicCoverage
