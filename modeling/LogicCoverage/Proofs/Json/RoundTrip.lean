import LogicCoverage.Json.Reader
import LogicCoverage.Proofs.Json.Spelling

/-!
# Written values are read back

The printer's text is scanned as the tokens of the value, and the reader makes the value of its
tokens. Together: a plain value that is written on many lines is read back.
-/

namespace LogicCoverage.Json

open Token

/-! ## The printer -/

section Printer

variable {rest : List Char} {ts : List Token}

theorem Token.Spells.quoted (h : Spells rest ts) (s : String) :
    Spells (Quoted.write s ++ rest) (.str (some s) :: ts) := by
  simp only [Quoted.write, List.cons_append, List.append_assoc, List.nil_append]
  refine .token (by decide) ?_ ?_ h
  · simp only [next?, Quoted.read_flatMap_escape, Option.bind_eq_bind, Option.bind_some,
      Option.pure_def]
  · simp only [List.length_append, List.length_cons]
    omega

/-- A key, its colon, and a blank. -/
theorem Token.Spells.key (h : Spells rest ts) (key : String) :
    Spells (keyText (some key) ++ ' ' :: rest) (.str (some key) :: .colon :: ts) := by
  rw [keyText, List.append_assoc]
  exact .quoted (.token (by decide) rfl (by simp) (.blank (by decide) h)) key

/-- How a value is written deeper than a depth. -/
def IsSpelled (v : Json) : Prop :=
  ∀ (depth : Nat) (rest : List Char) (ts : List Token), EndsNumber rest → Spells rest ts →
    Spells (writePretty depth v rest) (tokens v ++ ts)

/-- Nothing that follows an item continues a number. -/
theorem endsNumber_prettyItems (depth : Nat) (items : List Json) (rest : List Char) :
    EndsNumber (prettyItems depth items rest) := by
  cases items <;> simp only [prettyItems] <;> exact ⟨by decide, by decide, by decide, by decide⟩

theorem endsNumber_prettyMembers (depth : Nat) (members : List (Option String × Json))
    (rest : List Char) : EndsNumber (prettyMembers depth members rest) := by
  rcases members with _ | ⟨⟨key, value⟩, members⟩ <;> simp only [prettyMembers] <;>
    exact ⟨by decide, by decide, by decide, by decide⟩

/-- Items on lines of their own, and what follows, spell their tokens. -/
theorem spells_prettyItems {items : List Json} (h : ∀ item ∈ items, IsSpelled item) (depth : Nat)
    (hrest : Spells rest ts) :
    Spells (prettyItems depth items rest) (itemTokens items ++ ts) := by
  induction items with
  | nil =>
    rw [prettyItems, itemTokens]
    exact .newLine (.token (by decide) rfl (Nat.le_refl _) hrest) depth
  | cons item items ih =>
    rw [List.forall_mem_cons] at h
    rw [prettyItems, itemTokens, List.cons_append, List.cons_append, List.append_assoc]
    refine .token (by decide) rfl (Nat.le_refl _) (.newLine ?_ (depth + 1))
    exact h.1 _ _ _ (endsNumber_prettyItems depth items rest) (ih h.2)

/-- Likewise for members. -/
theorem spells_prettyMembers {members : List (String × Json)}
    (h : ∀ m ∈ members, IsSpelled m.2) (depth : Nat) (hrest : Spells rest ts) :
    Spells (prettyMembers depth (members.map fun (key, value) => (some key, value)) rest)
      (memberTokens (members.map fun (key, value) => (some key, value)) ++ ts) := by
  induction members with
  | nil =>
    rw [List.map_nil, prettyMembers, memberTokens]
    exact .newLine (.token (by decide) rfl (Nat.le_refl _) hrest) depth
  | cons m members ih =>
    obtain ⟨key, value⟩ := m
    rw [List.forall_mem_cons] at h
    rw [List.map_cons, prettyMembers, memberTokens]
    simp only [List.cons_append, List.append_assoc]
    refine .token (by decide) rfl (Nat.le_refl _) (.newLine (.key ?_ key) (depth + 1))
    exact h.1 _ _ _ (endsNumber_prettyMembers depth _ rest) (ih h.2)

/-- The text of a plain value on many lines is scanned as the tokens of the value. -/
theorem Plain.isSpelled {v : Json} (h : Plain v) : IsSpelled v := by
  induction h with
  | null =>
    intro depth rest ts _ hrest
    exact .token (by decide) rfl (Nat.le_add_right rest.length 3) hrest
  | bool b =>
    intro depth rest ts _ hrest
    cases b
    · exact .token (by decide) rfl (Nat.le_add_right rest.length 4) hrest
    · exact .token (by decide) rfl (Nat.le_add_right rest.length 3) hrest
  | nat n =>
    intro depth rest ts hend hrest
    exact hrest.nat hend n
  | string s =>
    intro depth rest ts _ hrest
    exact hrest.quoted s
  | @arr items _ ih =>
    intro depth rest ts _ hrest
    cases items with
    | nil =>
      exact .token (by decide) rfl (Nat.le_refl _) (.token (by decide) rfl (Nat.le_refl _) hrest)
    | cons item items =>
      rw [List.forall_mem_cons] at ih
      rw [writePretty, tokens, List.cons_append, List.cons_append, List.append_assoc]
      refine .token (by decide) rfl (Nat.le_refl _) (.newLine ?_ (depth + 1))
      exact ih.1 _ _ _ (endsNumber_prettyItems depth items rest)
        (spells_prettyItems ih.2 depth hrest)
  | @obj members _ ih =>
    intro depth rest ts _ hrest
    rcases members with _ | ⟨⟨key, value⟩, members⟩
    · exact .token (by decide) rfl (Nat.le_refl _) (.token (by decide) rfl (Nat.le_refl _) hrest)
    · rw [List.forall_mem_cons] at ih
      rw [object, List.map_cons, writePretty, tokens]
      simp only [List.cons_append, List.append_assoc]
      refine .token (by decide) rfl (Nat.le_refl _) (.newLine (.key ?_ key) (depth + 1))
      exact ih.1 _ _ _ (endsNumber_prettyMembers depth _ rest)
        (spells_prettyMembers ih.2 depth hrest)

end Printer

/-! ## The reader -/

/-- No value begins with a closing bracket. -/
theorem tokens_eq_cons (v : Json) : ∃ t ts, tokens v = t :: ts ∧ t ≠ .closeArray := by
  rcases v with _ | _ | _ | _ | _ | (_ | _) | (_ | ⟨_, _⟩)
  all_goals exact ⟨_, _, rfl, nofun⟩

/-- An array that is not empty is read item by item. -/
theorem value?_openArray (fuel : Nat) (item : Json) (rest : List Token) :
    value? (fuel + 1) (.openArray :: (tokens item ++ rest)) = do
      let (items, rest) ← items? fuel (tokens item ++ rest)
      return (.arr items, rest) := by
  obtain ⟨t, ts, ht, hne⟩ := tokens_eq_cons item
  rw [ht, List.cons_append, value?]
  rintro _ ⟨rfl, -⟩
  exact hne rfl

/-- How a value is read off its tokens, whatever tokens follow. -/
def IsRead (v : Json) : Prop :=
  ∀ (fuel : Nat) (rest : List Token), 2 * (tokens v).length ≤ fuel →
    value? fuel (tokens v ++ rest) = some (v, rest)

/-- With enough fuel, items are read back one by one, up to what follows. -/
theorem items?_tokens {item : Json} {items : List Json} (h : IsRead item)
    (hitems : ∀ item ∈ items, IsRead item) (fuel : Nat) (rest : List Token)
    (hfuel : 2 * (tokens item).length + 2 * (itemTokens items).length ≤ fuel) :
    items? fuel (tokens item ++ (itemTokens items ++ rest)) = some (item :: items, rest) := by
  induction items generalizing item fuel with
  | nil =>
    simp only [itemTokens, List.length_singleton] at hfuel
    obtain ⟨fuel, rfl⟩ := Nat.exists_eq_add_of_le' (show 1 ≤ fuel by omega)
    rw [items?, h fuel _ (by omega)]
    rfl
  | cons next items ih =>
    rw [List.forall_mem_cons] at hitems
    simp only [itemTokens, List.length_cons, List.length_append] at hfuel
    obtain ⟨fuel, rfl⟩ := Nat.exists_eq_add_of_le' (show 1 ≤ fuel by omega)
    rw [items?, h fuel _ (by omega)]
    simp only [itemTokens, List.cons_append, List.append_assoc, Option.bind_eq_bind,
      Option.bind_some]
    rw [ih hitems.1 hitems.2 fuel (by omega)]
    rfl

/-- Likewise for members. -/
theorem members?_tokens (key : Option String) {value : Json}
    {members : List (Option String × Json)} (h : IsRead value)
    (hmembers : ∀ m ∈ members, IsRead m.2) (fuel : Nat) (rest : List Token)
    (hfuel : 2 * (tokens value).length + 2 * (memberTokens members).length ≤ fuel) :
    members? fuel (.str key :: .colon :: (tokens value ++ (memberTokens members ++ rest))) =
      some ((key, value) :: members, rest) := by
  induction members generalizing key value fuel with
  | nil =>
    simp only [memberTokens, List.length_singleton] at hfuel
    obtain ⟨fuel, rfl⟩ := Nat.exists_eq_add_of_le' (show 1 ≤ fuel by omega)
    rw [members?, h fuel _ (by omega)]
    rfl
  | cons next members ih =>
    rw [List.forall_mem_cons] at hmembers
    simp only [memberTokens, List.length_cons, List.length_append] at hfuel
    obtain ⟨fuel, rfl⟩ := Nat.exists_eq_add_of_le' (show 1 ≤ fuel by omega)
    rw [members?, h fuel _ (by omega)]
    simp only [memberTokens, List.cons_append, List.append_assoc, Option.bind_eq_bind,
      Option.bind_some]
    rw [ih next.1 hmembers.1 hmembers.2 fuel (by omega)]
    rfl

/-- The reader makes a value of its tokens. -/
theorem Plain.isRead {v : Json} (h : Plain v) : IsRead v := by
  induction h with
  | @arr items _ ih =>
    intro fuel rest hfuel
    cases items with
    | nil => cases fuel <;> first | rfl | contradiction
    | cons item items =>
      rw [List.forall_mem_cons] at ih
      simp only [tokens, List.length_cons, List.length_append] at hfuel
      obtain ⟨fuel, rfl⟩ := Nat.exists_eq_add_of_le' (show 1 ≤ fuel by omega)
      simp only [tokens, List.cons_append, List.append_assoc]
      rw [value?_openArray, items?_tokens ih.1 ih.2 fuel rest (by omega)]
      rfl
  | @obj members _ ih =>
    intro fuel rest hfuel
    rcases members with _ | ⟨⟨key, value⟩, members⟩
    · cases fuel <;> first | rfl | contradiction
    · rw [List.forall_mem_cons] at ih
      have hvalue : IsRead value := ih.1
      simp only [object, List.map_cons, tokens, List.length_cons, List.length_append] at hfuel
      obtain ⟨fuel, rfl⟩ := Nat.exists_eq_add_of_le' (show 1 ≤ fuel by omega)
      simp only [object, List.map_cons, tokens, List.cons_append, List.append_assoc, value?]
      rw [members?_tokens (some key) hvalue (List.forall_mem_map.mpr ih.2) fuel rest (by omega)]
      rfl
  | _ =>
    intro fuel rest hfuel
    cases fuel <;> first | rfl | contradiction

/-- A plain value that is written on many lines is read back. -/
theorem parse?_pretty {v : Json} (h : Plain v) : parse? v.pretty = some v := by
  have hspells : Spells v.pretty.toList (tokens v) := by
    have := h.isSpelled 0 [] [] trivial .nil
    rwa [List.append_nil, ← String.toList_ofList (l := writePretty 0 v [])] at this
  have hvalue := h.isRead _ [] (Nat.le_succ (2 * (tokens v).length))
  rw [List.append_nil] at hvalue
  simp only [parse?, ofText_eq hspells, Option.bind_eq_bind, Option.bind_some, ofTokens, hvalue]
  rfl

end LogicCoverage.Json
