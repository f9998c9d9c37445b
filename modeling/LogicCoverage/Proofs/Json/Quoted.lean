import LogicCoverage.Json.Quoted

/-!
# Quoted strings are read back

What is written between quotes is read as the same text, whatever characters it has and whatever
follows the closing quote. A control character that has no short escape is written by number, and
no such number is a surrogate's.
-/

namespace LogicCoverage.Json.Quoted

/-- What a reader finds where a character was written. -/
def pieceOf (c : Char) : Piece :=
  if c.toNat < 32 ∧ c ∉ ['\x08', '\x0c', '\n', '\r', '\t'] then .unit c.toNat else .char c

/-- A digit is read as the value it was written for. -/
theorem hexValue?_hexDigit {n : Nat} (h : n < 16) : hexValue? (hexDigit n) = some n := by
  revert n
  decide

/-- The digits of an escape are read as the code that they were written for. -/
theorem unit?_escape {n : Nat} (h : n < 32) :
    unit? '0' '0' (hexDigit (n / 16)) (hexDigit (n % 16)) = some n := by
  have hhi : hexValue? (hexDigit (n / 16)) = some (n / 16) := hexValue?_hexDigit (by omega)
  have hlo : hexValue? (hexDigit (n % 16)) = some (n % 16) := hexValue?_hexDigit (by omega)
  have hzero : hexValue? '0' = some 0 := by decide
  simp only [unit?, hhi, hlo, hzero, Option.pure_def, Option.bind_eq_bind, Option.bind_some,
    Option.some.injEq]
  omega

/-- Each character is read as one piece. -/
theorem pieces_escape (c : Char) (rest : List Char) :
    pieces (escape c ++ rest) = do
      let (found, rest) ← pieces rest
      return (pieceOf c :: found, rest) := by
  unfold escape
  split
  case h_8 hquote hback hb hf hn hr ht =>
    split
    · rename_i hlow
      have hpiece : pieceOf c = .unit c.toNat := by
        rw [pieceOf, if_pos]
        simp only [List.mem_cons, List.not_mem_nil, or_false, not_or]
        exact ⟨hlow, hb, hf, hn, hr, ht⟩
      rw [hpiece]
      simp only [List.cons_append, List.nil_append, pieces, unit?_escape hlow,
        Option.bind_eq_bind, Option.bind_some]
    · rename_i hhigh
      have hpiece : pieceOf c = .char c := by
        rw [pieceOf, if_neg]
        exact fun h => hhigh h.1
      have hplain : ¬ (c.toNat < 32 ∨ c = '\\') := by
        rintro (h | h)
        · exact hhigh h
        · exact hback h
      rw [List.singleton_append, pieces, if_neg hplain, hpiece]
      · exact hquote
      all_goals
        intros
        exact hback ‹_›
  all_goals
    simp only [List.cons_append, List.nil_append]
    rw [pieces]
    · rfl
    · simp

/-- What is written for some characters is read as one piece for each. -/
theorem pieces_flatMap_escape (cs rest : List Char) :
    pieces (cs.flatMap escape ++ '"' :: rest) = some (cs.map pieceOf, rest) := by
  induction cs with
  | nil => simp [pieces]
  | cons c cs ih =>
    rw [List.flatMap_cons, List.append_assoc, pieces_escape, ih]
    rfl

/-- A number below the surrogates stands for a character, whatever follows it. -/
theorem text?_unit {n : Nat} (h : n < 0xD800) (rest : List Piece) :
    text? (.unit n :: rest) = do return Char.ofNat n :: (← text? rest) := by
  have hhigh : isHigh n = false := by
    simp only [isHigh, Bool.and_eq_false_iff, decide_eq_false_iff_not]
    omega
  have hlow : isLow n = false := by
    simp only [isLow, Bool.and_eq_false_iff, decide_eq_false_iff_not]
    omega
  conv =>
    lhs
    unfold text?
  rcases rest with _ | ⟨_ | lo, rest⟩
  all_goals
    simp only [hhigh, hlow, Bool.or_false, Bool.false_and, Bool.false_eq_true, if_false]

theorem text?_cons (c : Char) (rest : List Piece) :
    text? (pieceOf c :: rest) = do return c :: (← text? rest) := by
  unfold pieceOf
  split
  · rename_i h
    rw [text?_unit (by omega), Char.ofNat_toNat]
  · rw [text?]

/-- The pieces of some characters are joined to the same characters. -/
theorem text?_map_pieceOf (cs : List Char) : text? (cs.map pieceOf) = some cs := by
  induction cs with
  | nil => rfl
  | cons c cs ih =>
    rw [List.map_cons, text?_cons, ih]
    rfl

/-- A text that was written between quotes is read back, up to the closing quote. -/
theorem read_flatMap_escape (s : String) (rest : List Char) :
    read (s.toList.flatMap escape ++ '"' :: rest) = some (some s, rest) := by
  rw [read, pieces_flatMap_escape]
  simp only [Option.bind_eq_bind, Option.bind_some, text?_map_pieceOf, Option.map_some,
    String.ofList_toList, Option.pure_def]

end LogicCoverage.Json.Quoted
