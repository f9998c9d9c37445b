import LogicCoverage.Id

/-!
# Marks of a pass

The expressions already counted in the running pass. Every expression carries the stamp of the last
pass that marked it, so that a new pass starts by counting the passes up and touches no stamp. No
stamp is newer than the running pass, and 0 stands for no pass at all; hence a new pass starts with
nothing counted, and marking one expression counts that one and no other.
-/

namespace LogicCoverage

structure PassMarks where
  stamps : Array UInt32
  generation : UInt32
  generation_ne_zero : generation ≠ 0
  le_generation : ∀ stamp ∈ stamps, stamp ≤ generation

namespace PassMarks

/-- Nothing marked; already inside a pass. There is a stamp for each of the first `capacity`
expressions. -/
def new (capacity : Nat) : PassMarks where
  stamps := .replicate capacity 0
  generation := 1
  generation_ne_zero := by decide
  le_generation := by simp

/-- Starts a pass. When the count of passes comes round to 0, the stamps are wiped. -/
def beginPass (m : PassMarks) : PassMarks :=
  if h : m.generation + 1 = 0 then .new m.stamps.size
  else {
    stamps := m.stamps
    generation := m.generation + 1
    generation_ne_zero := h
    le_generation := fun stamp hs => by
      have := m.le_generation stamp hs
      grind }

/-- The stamp of an expression; one that was never marked may have none. -/
def stamp (m : PassMarks) (id : ExprId) : UInt32 := m.stamps.getD id.index.toNat 0

/-- Whether the running pass marked the expression. -/
def counted (m : PassMarks) (id : ExprId) : Bool := m.stamp id = m.generation

/-- The stamps with room for a position. -/
def room (stamps : Array UInt32) (i : Nat) : Array UInt32 :=
  stamps ++ Array.replicate (i + 1 - stamps.size) 0

theorem lt_size_room (stamps : Array UInt32) (i : Nat) : i < (room stamps i).size := by
  simp [room]
  omega

theorem getD_replicate (n j : Nat) : (Array.replicate n (0 : UInt32)).getD j 0 = 0 := by
  rw [Array.getD_eq_getD_getElem?, Array.getElem?_replicate]
  split <;> rfl

@[simp] theorem getD_room (stamps : Array UInt32) (i j : Nat) :
    (room stamps i).getD j 0 = stamps.getD j 0 := by
  rw [room, Array.getD_eq_getD_getElem?, Array.getElem?_append, Array.getD_eq_getD_getElem?]
  split
  · rfl
  · rename_i h
    rw [← Array.getD_eq_getD_getElem?, getD_replicate, Array.getElem?_eq_none (Nat.le_of_not_lt h),
      Option.getD_none]

/-- Marks an expression, making room for it if needed. -/
def mark (m : PassMarks) (id : ExprId) : PassMarks :=
  { m with
    stamps := (room m.stamps id.index.toNat).setIfInBounds id.index.toNat m.generation
    le_generation := by
      intro stamp h
      rcases Array.mem_or_eq_of_mem_setIfInBounds h with h | h
      · rcases Array.mem_append.1 h with h | h
        · exact m.le_generation stamp h
        · rw [Array.eq_of_mem_replicate h]
          exact UInt32.zero_le
      · exact h ▸ UInt32.le_refl _ }

@[simp] theorem stamp_new (capacity : Nat) (id : ExprId) : (new capacity).stamp id = 0 :=
  getD_replicate capacity id.index.toNat

/-- Fresh marks count nothing. -/
theorem counted_new (capacity : Nat) (id : ExprId) : (new capacity).counted id = false := by
  rw [counted, stamp_new]
  exact decide_eq_false (new capacity).generation_ne_zero.symm

/-- No stamp is from a later generation. -/
theorem stamp_le_generation (m : PassMarks) (id : ExprId) : m.stamp id ≤ m.generation := by
  unfold stamp Array.getD
  split
  · exact m.le_generation _ (Array.getElem_mem _)
  · exact UInt32.zero_le

/-- A new pass has counted nothing. -/
theorem counted_beginPass (m : PassMarks) (id : ExprId) : m.beginPass.counted id = false := by
  unfold beginPass
  split
  · exact counted_new _ id
  · rename_i h
    have := m.stamp_le_generation id
    simp only [counted, stamp] at this ⊢
    grind

/-- Marking an expression counts it and no other. -/
theorem counted_mark (m : PassMarks) (id other : ExprId) :
    (m.mark id).counted other = (m.counted other || other = id) := by
  by_cases h : other = id
  · subst h
    simp [counted, stamp, mark, Array.getD_eq_getD_getElem?,
      Array.getElem?_setIfInBounds_self_of_lt (lt_size_room _ _)]
  · have hi : id.index.toNat ≠ other.index.toNat := fun e => h (ExprId.toNat_index_inj.1 e).symm
    simp only [h, decide_false, Bool.or_false]
    unfold counted stamp mark
    rw [Array.getD_eq_getD_getElem?, Array.getElem?_setIfInBounds_ne hi,
      ← Array.getD_eq_getD_getElem?, getD_room]

end PassMarks

/-! ## Sequences of calls -/

/-- What can be done to marks: to start a pass, and to mark an expression. -/
inductive MarkCall where
  | beginPass
  | mark (id : ExprId)
deriving DecidableEq

namespace PassMarks

def perform (m : PassMarks) : MarkCall → PassMarks
  | .beginPass => m.beginPass
  | .mark id => m.mark id

/-- One call after the other. -/
def run (m : PassMarks) (calls : List MarkCall) : PassMarks := calls.foldl perform m

end PassMarks

end LogicCoverage
