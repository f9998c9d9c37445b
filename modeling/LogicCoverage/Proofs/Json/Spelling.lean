import LogicCoverage.Json.Printer
import LogicCoverage.Json.Token
import LogicCoverage.Proofs.Json.Quoted

/-!
# The tokens of a written value

`tokens` lists what a value is spelled with. A value that is written on many lines is scanned as
these tokens: blanks fall between tokens only, and a number ends before what follows it.
-/

namespace LogicCoverage.Json

/-! ## Tokens -/

mutual

/-- The tokens that spell a value. -/
def tokens : Json → List Token
  | .null => [.null]
  | .bool b => [.bool b]
  | .nat n => [.nat n]
  | .number literal => [.number literal]
  | .str text => [.str text]
  | .arr [] => [.openArray, .closeArray]
  | .arr (item :: items) => .openArray :: (tokens item ++ itemTokens items)
  | .obj [] => [.openObject, .closeObject]
  | .obj ((key, value) :: members) =>
    .openObject :: .str key :: .colon :: (tokens value ++ memberTokens members)

/-- The tokens after an item of an array. -/
def itemTokens : List Json → List Token
  | [] => [.closeArray]
  | item :: items => .comma :: (tokens item ++ itemTokens items)

/-- The tokens after a member of an object. -/
def memberTokens : List (Option String × Json) → List Token
  | [] => [.closeObject]
  | (key, value) :: members =>
    .comma :: .str key :: .colon :: (tokens value ++ memberTokens members)

end

/-- A value without a part that a printer has no text for: all strings and keys have text, and
numbers are written in digits alone. -/
inductive Plain : Json → Prop where
  | null : Plain .null
  | bool (b : Bool) : Plain (.bool b)
  | nat (n : Nat) : Plain (.nat n)
  | string (s : String) : Plain (.string s)
  | arr {items : List Json} : (∀ item ∈ items, Plain item) → Plain (.arr items)
  | obj {members : List (String × Json)} : (∀ m ∈ members, Plain m.2) → Plain (.object members)

namespace Token

/-- A text is scanned as these tokens. Each token takes up a character at least. -/
inductive Spells : List Char → List Token → Prop where
  | nil : Spells [] []
  | blank {c cs ts} : isBlank c = true → Spells cs ts → Spells (c :: cs) ts
  | token {c cs t rest ts} : isBlank c = false → next? (c :: cs) = some (t, rest) →
      rest.length ≤ cs.length → Spells rest ts → Spells (c :: cs) (t :: ts)

/-- As many steps as there are characters are enough for a scan. -/
theorem Spells.scan_eq {cs : List Char} {ts : List Token} (h : Spells cs ts) {fuel : Nat}
    (hfuel : cs.length ≤ fuel) : scan fuel cs = some ts := by
  induction h generalizing fuel with
  | nil => cases fuel <;> rfl
  | blank hblank _ ih =>
    obtain ⟨fuel, rfl⟩ := Nat.exists_eq_succ_of_ne_zero (by grind : fuel ≠ 0)
    rw [scan, if_pos hblank]
    exact ih (Nat.le_of_succ_le_succ hfuel)
  | token hblank hnext hlen _ ih =>
    obtain ⟨fuel, rfl⟩ := Nat.exists_eq_succ_of_ne_zero (by grind : fuel ≠ 0)
    rw [scan, hblank, if_neg Bool.false_ne_true, hnext]
    simp only [Option.bind_eq_bind, Option.bind_some, Option.pure_def,
      ih (Nat.le_trans hlen (Nat.le_of_succ_le_succ hfuel))]

/-- A text is split into the tokens it spells. -/
theorem ofText_eq {s : String} {ts : List Token} (h : Spells s.toList ts) : ofText s = some ts :=
  h.scan_eq (Nat.le_refl _)

/-- The start of a line is blank. -/
theorem Spells.newLine {cs : List Char} {ts : List Token} (h : Spells cs ts) (depth : Nat) :
    Spells (newLine depth ++ cs) ts := by
  refine .blank (by decide) ?_
  generalize 2 * depth = n
  induction n with
  | zero => exact h
  | succ n ih => exact .blank (by decide) ih

/-! ## Numbers -/

theorem isDigit_eq (c : Char) : isDigit c = c.isDigit := by
  simp [isDigit, Char.isDigit, Char.le_def]

/-- Only nought starts with a nought. -/
theorem eq_zero_of_toDigits {n : Nat} {ds : List Char} (h : Nat.toDigits 10 n = '0' :: ds) :
    n = 0 := by
  induction n using Nat.strongRecOn generalizing ds with
  | _ n ih =>
    rw [Nat.toDigits_eq_if (by decide)] at h
    split at h
    · rename_i hlt
      have hdigit : ∀ m < 10, Nat.digitChar m = '0' → m = 0 := by decide
      exact hdigit n hlt (List.cons.inj h).1
    · rename_i hge
      cases hd : Nat.toDigits 10 (n / 10) with
      | nil => exact absurd hd Nat.toDigits_ne_nil
      | cons c cs =>
        rw [hd, List.cons_append] at h
        rw [(List.cons.inj h).1] at hd
        have := ih (n / 10) (by omega) hd
        omega

/-- A numeral consists of digits. -/
theorem isDigit_of_mem_toDigits {n : Nat} {c : Char} (h : c ∈ Nat.toDigits 10 n) :
    isDigit c = true :=
  (isDigit_eq c).trans (Nat.isDigit_of_mem_toDigits (by decide) (by decide) h)

/-- A numeral is read as the number that it was written for. -/
theorem natOf_toDigits (n : Nat) : natOf (Nat.toDigits 10 n) = n := by
  have hfold : natOf (Nat.toDigits 10 n) = Nat.ofDigitChars 10 (Nat.toDigits 10 n) 0 := by
    simp only [natOf, Nat.ofDigitChars, Nat.mul_comm]
    rfl
  rw [hfold, Nat.ofDigitChars_ten_toDigits]

/-- Nothing that could go on with a number. -/
def EndsNumber : List Char → Prop
  | [] => True
  | c :: _ => isDigit c = false ∧ c ≠ '.' ∧ c ≠ 'e' ∧ c ≠ 'E'

section Number

variable {rest : List Char} (hend : EndsNumber rest)

include hend

/-- Digits are taken up to where what follows starts. -/
theorem takeWhile_isDigit_append {ds : List Char} (hds : ∀ c ∈ ds, isDigit c = true) :
    (ds ++ rest).takeWhile isDigit = ds ∧ (ds ++ rest).dropWhile isDigit = rest := by
  rw [List.takeWhile_append_of_pos hds, List.dropWhile_append_of_pos hds]
  cases rest with
  | nil => exact ⟨List.append_nil ds, rfl⟩
  | cons c rest =>
    have hc : ¬ isDigit c = true := by simp [hend.1]
    rw [List.takeWhile_cons_of_neg hc, List.dropWhile_cons_of_neg hc, List.append_nil]
    exact ⟨rfl, rfl⟩

/-- A numeral has no leading zero, and is taken as a whole. -/
theorem whole?_toDigits (n : Nat) :
    whole? (Nat.toDigits 10 n ++ rest) = some (Nat.toDigits 10 n, rest) := by
  obtain ⟨htake, hdrop⟩ :=
    takeWhile_isDigit_append hend fun c hc => isDigit_of_mem_toDigits (n := n) hc
  cases hn : Nat.toDigits 10 n with
  | nil => exact absurd hn Nat.toDigits_ne_nil
  | cons c ds =>
    by_cases hc : c = '0'
    · subst hc
      cases eq_zero_of_toDigits hn
      cases hn
      rfl
    · rw [hn] at htake hdrop
      rw [List.cons_append] at *
      rw [whole?, htake, hdrop]
      intro _ h
      exact hc (List.cons.inj h).1

/-- There is no fraction where the number ends. -/
theorem fraction?_of_endsNumber : fraction? rest = some ([], rest) := by
  cases rest with
  | nil => rfl
  | cons c rest =>
    rw [fraction?]
    intro _ h
    exact hend.2.1 (List.cons.inj h).1

/-- There is no exponent where the number ends. -/
theorem exponent?_of_endsNumber : exponent? rest = some ([], rest) := by
  cases rest with
  | nil => rfl
  | cons c rest =>
    rw [exponent?]
    all_goals
      intros
      first
        | exact hend.2.2.1 (List.cons.inj ‹_›).1
        | exact hend.2.2.2 (List.cons.inj ‹_›).1

/-- A numeral is a token of its number. -/
theorem unsigned?_toDigits (n : Nat) :
    unsigned? [] (Nat.toDigits 10 n ++ rest) = some (.nat n, rest) := by
  simp only [unsigned?, whole?_toDigits hend, fraction?_of_endsNumber hend,
    exponent?_of_endsNumber hend, Option.bind_eq_bind, Option.bind_some, List.isEmpty_nil,
    Bool.and_self, if_true, natOf_toDigits, Option.pure_def]

omit hend in
theorem next?_of_isDigit {c : Char} (h : isDigit c = true) (cs : List Char) :
    next? (c :: cs) = unsigned? [] (c :: cs) := by
  unfold next?
  split
  case h_12 => rfl
  all_goals
    rename_i heq
    cases heq
    exact absurd h (by decide)

/-- A number is a token of its own before anything that does not go on with it. -/
theorem Spells.nat {ts : List Token} (h : Spells rest ts) (n : Nat) :
    Spells (Nat.toDigits 10 n ++ rest) (.nat n :: ts) := by
  have hnumber := unsigned?_toDigits hend n
  have hdigits := fun c => isDigit_of_mem_toDigits (n := n) (c := c)
  cases hn : Nat.toDigits 10 n with
  | nil => exact absurd hn Nat.toDigits_ne_nil
  | cons c ds =>
    rw [hn] at hnumber hdigits
    have hc := hdigits c List.mem_cons_self
    refine .token ?_ ((next?_of_isDigit hc _).trans hnumber) (by simp) h
    simp only [isBlank, Bool.or_eq_false_iff, decide_eq_false_iff_not]
    refine ⟨⟨⟨?_, ?_⟩, ?_⟩, ?_⟩
    all_goals
      rintro rfl
      exact absurd hc (by decide)

end Number

end Token

end LogicCoverage.Json
