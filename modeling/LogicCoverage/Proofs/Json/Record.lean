import LogicCoverage.Json.Record
import LogicCoverage.Proofs.Json.Spelling

/-!
# Records are read back

`Faithful` ties a way to write values to a way to read them. A record is read back field by field: the
reader finds under each name what stands under it, or nothing where a member with a default was left
out.
-/

namespace LogicCoverage.Json

/-- Values are written as plain values, which are read as what they were. -/
structure Faithful {α : Type} (write : α → Json) (read : Json → Option α) : Prop where
  plain : ∀ a, Plain (write a)
  read_write : ∀ a, read (write a) = some a

/-- A traversal succeeds if each step does. -/
theorem mapM_eq_some_map {α β : Type} {l : List α} {f : α → Option β} {g : α → β}
    (h : ∀ a ∈ l, f a = some (g a)) : l.mapM f = some (l.map g) := by
  induction l with
  | nil => rfl
  | cons a l ih =>
    rw [List.forall_mem_cons] at h
    rw [List.mapM_cons, h.1, ih h.2]
    rfl

/-! ## Fields -/

/-- The values under a key, in order. -/
theorem members_object (members : List (String × Json)) (key : String) :
    (object members).members key = (members.filter fun m => m.1 == key).map (·.2) := by
  simp only [object, Json.members, List.filter_map, List.map_map]
  rfl

/-- Under a key that does not repeat stands one value. -/
theorem filter_eq_lookup {members : List (String × Json)} (h : (members.map (·.1)).Nodup)
    (key : String) :
    (members.filter fun m => m.1 == key).map (·.2) = (members.lookup key).toList := by
  induction members with
  | nil => rfl
  | cons m members ih =>
    obtain ⟨name, value⟩ := m
    rw [List.map_cons, List.nodup_cons] at h
    by_cases hkey : name = key
    · subst hkey
      have hrest : members.filter (fun m => m.1 == name) = [] := by
        rw [List.filter_eq_nil_iff]
        intro m hm heq
        exact h.1 (List.mem_map.mpr ⟨m, hm, eq_of_beq heq⟩)
      rw [List.filter_cons_of_pos (by simp), hrest, List.lookup_cons_self]
      rfl
    · have hne : (key == name) = false := beq_false_of_ne (Ne.symm hkey)
      rw [List.filter_cons_of_neg (by simpa using hkey), ih h.2, List.lookup_cons, hne]

/-- A member is found under its name; one that has a default may be absent. -/
theorem field?_object {members : List (String × Json)} (h : (members.map (·.1)).Nodup)
    {name : String} {need : Need} (hneed : need = .defaulted ∨ (members.lookup name).isSome) :
    field? (object members) name need = some (members.lookup name) := by
  rw [field?.eq_def, members_object, filter_eq_lookup h]
  cases hl : members.lookup name with
  | some v => cases need <;> rfl
  | none =>
    obtain rfl : need = .defaulted := hneed.resolve_right (by simp [hl])
    rfl

/-- The members of an object are read in the order in which the fields are asked for. -/
theorem record?_object {members : List (String × Json)} (h : (members.map (·.1)).Nodup)
    {fields : List (String × Need)}
    (hneed : ∀ f ∈ fields, f.2 = .defaulted ∨ (members.lookup f.1).isSome) :
    record? fields (object members) = some (fields.map fun f => members.lookup f.1) := by
  rw [object, record?, if_pos (by simp)]
  exact mapM_eq_some_map fun f hf => field?_object h (hneed f hf)

/-! ## Faithful ways to write -/

namespace Faithful

variable {α : Type} {write : α → Json} {read : Json → Option α}

theorem bool : Faithful Json.bool bool? where
  plain := .bool
  read_write _ := rfl

theorem string : Faithful Json.string string? where
  plain := .string
  read_write _ := rfl

theorem uint64 : Faithful (fun n => .nat n.toNat) uint64? where
  plain n := .nat n.toNat
  read_write n := by
    rw [uint64?, if_pos n.toNat_lt, UInt64.ofNat_toNat]

/-- Written as the part that tells values apart. -/
theorem map {β : Type} (h : Faithful write read) (part : β → α) (make : α → β)
    (hmake : ∀ b, make (part b) = b) :
    Faithful (fun b => write (part b)) (fun j => (read j).map make) where
  plain b := h.plain (part b)
  read_write b := by rw [h.read_write, Option.map_some, hmake]

/-- Lists are faithful if their items are. -/
theorem list (h : Faithful write read) : Faithful (fun xs => .arr (xs.map write)) (list? read) where
  plain xs := .arr (List.forall_mem_map.mpr fun a _ => h.plain a)
  read_write xs := by
    rw [list?, List.mapM_map]
    exact (mapM_eq_some_map fun a _ => h.read_write a).trans (by rw [List.map_id'])

end Faithful

end LogicCoverage.Json
