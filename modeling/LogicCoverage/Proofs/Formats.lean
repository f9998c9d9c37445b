import LogicCoverage.Settings.File
import LogicCoverage.Snapshot.Text
import LogicCoverage.Proofs.Snapshot

/-!
# No file is both settings and a snapshot

The text of a snapshot starts, blanks aside, with a brace, or with two brackets and a third bracket
or brace. No document of settings does: neither stands at the start of a key.
-/

namespace LogicCoverage

/-- Blanks aside, the text starts with a brace, or with two brackets and one more bracket or
brace. -/
inductive OpensRecord (cs : List Char) : Prop where
  | object {rest} : cs.dropWhile Json.Token.isBlank = '{' :: rest → OpensRecord cs
  | array {first second third c} : cs.dropWhile Json.Token.isBlank = '[' :: first →
      first.dropWhile Json.Token.isBlank = '[' :: second →
        second.dropWhile Json.Token.isBlank = c :: third → c ∈ ['[', ']', '{'] → OpensRecord cs

/-! ## The start of a snapshot -/

namespace Json

namespace Token

/-- The character that is a token of its own. -/
def bracket? : Token → Option Char
  | openArray => some '['
  | closeArray => some ']'
  | openObject => some '{'
  | closeObject => some '}'
  | _ => none

/-- A number is no bracket. -/
theorem bracket?_of_unsigned? {sign cs rest : List Char} {t : Token}
    (h : unsigned? sign cs = some (t, rest)) : t.bracket? = none := by
  simp only [unsigned?, Option.bind_eq_bind, Option.bind_eq_some_iff] at h
  obtain ⟨_, _, _, _, _, _, h⟩ := h
  split at h <;> cases h <;> rfl

/-- A bracket is spelled by its character. -/
theorem next?_bracket {c d : Char} {cs rest : List Char} {t : Token} (ht : t.bracket? = some d)
    (h : next? (c :: cs) = some (t, rest)) : c = d ∧ rest = cs := by
  have hnumber {sign cs rest : List Char} (h : unsigned? sign cs = some (t, rest)) : False := by
    rw [bracket?_of_unsigned? h] at ht
    cases ht
  unfold next? at h
  split at h
  case h_7 =>
    simp only [Option.bind_eq_bind, Option.bind_eq_some_iff] at h
    obtain ⟨_, _, h⟩ := h
    cases h
    cases ht
  case h_11 => exact (hnumber h).elim
  case h_12 => exact (hnumber h).elim
  all_goals
    rename_i heq
    cases h
    cases heq
    cases ht
    try exact ⟨rfl, rfl⟩

/-- The first token of a text is read where its blanks end. -/
theorem scan_cons {fuel : Nat} {cs : List Char} {t : Token} {ts : List Token}
    (h : scan fuel cs = some (t :: ts)) :
    ∃ c rest after fuel', cs.dropWhile isBlank = c :: rest ∧ next? (c :: rest) = some (t, after) ∧
      scan fuel' after = some ts := by
  induction fuel generalizing cs with
  | zero => cases cs <;> cases h
  | succ fuel ih =>
    cases cs with
    | nil => cases h
    | cons c rest =>
      rw [scan] at h
      cases hblank : isBlank c with
      | true =>
        rw [hblank, if_pos rfl] at h
        rw [List.dropWhile_cons_of_pos hblank]
        exact ih h
      | false =>
        rw [hblank, if_neg Bool.false_ne_true] at h
        simp only [Option.bind_eq_bind, Option.bind_eq_some_iff] at h
        obtain ⟨⟨t', after⟩, hnext, ts', hscan, h⟩ := h
        cases h
        refine ⟨c, rest, after, fuel, ?_, hnext, hscan⟩
        exact List.dropWhile_cons_of_neg (by rw [hblank]; exact Bool.false_ne_true)

/-- A text whose first token is a bracket starts with it. -/
theorem scan_bracket {fuel : Nat} {cs : List Char} {t : Token} {ts : List Token} {d : Char}
    (ht : t.bracket? = some d) (h : scan fuel cs = some (t :: ts)) :
    ∃ rest fuel', cs.dropWhile isBlank = d :: rest ∧ scan fuel' rest = some ts := by
  obtain ⟨c, rest, after, fuel', hcs, hnext, hscan⟩ := scan_cons h
  obtain ⟨rfl, rfl⟩ := next?_bracket ht hnext
  exact ⟨_, fuel', hcs, hscan⟩

end Token

variable {fuel : Nat} {ts rest : List Token}

/-- An object opens with its bracket. -/
theorem value?_obj {members : List (Option String × Json)}
    (h : value? fuel ts = some (.obj members, rest)) : ∃ ts', ts = .openObject :: ts' := by
  cases fuel with
  | zero => cases h
  | succ fuel =>
    unfold value? at h
    split at h
    case h_7 =>
      simp only [Option.bind_eq_bind, Option.bind_eq_some_iff] at h
      obtain ⟨_, _, h⟩ := h
      cases h
    all_goals first | exact ⟨_, rfl⟩ | cases h

/-- Items start with one that is read. -/
theorem items?_cons {items : List Json} (h : items? fuel ts = some (items, rest)) :
    ∃ item items' fuel' rest', items = item :: items' ∧ value? fuel' ts = some (item, rest') := by
  cases fuel with
  | zero => cases h
  | succ fuel =>
    simp only [items?, Option.bind_eq_bind, Option.bind_eq_some_iff] at h
    obtain ⟨⟨item, rest'⟩, hitem, h⟩ := h
    dsimp only at h
    split at h
    · cases h
      exact ⟨item, _, fuel, _, rfl, hitem⟩
    · simp only [Option.bind_eq_some_iff] at h
      obtain ⟨_, _, h⟩ := h
      cases h
      exact ⟨item, _, fuel, _, rfl, hitem⟩
    · cases h

/-- An array opens with its bracket, and is empty or starts with an item. -/
theorem value?_arr {items : List Json} (h : value? fuel ts = some (.arr items, rest)) :
    (items = [] ∧ ∃ ts', ts = .openArray :: .closeArray :: ts') ∨
      ∃ ts' item items' fuel' rest', ts = .openArray :: ts' ∧ items = item :: items' ∧
        value? fuel' ts' = some (item, rest') := by
  cases fuel with
  | zero => cases h
  | succ fuel =>
    unfold value? at h
    split at h
    case h_6 =>
      cases h
      exact .inl ⟨rfl, _, rfl⟩
    case h_7 =>
      simp only [Option.bind_eq_bind, Option.bind_eq_some_iff] at h
      obtain ⟨⟨items', rest'⟩, hitems, h⟩ := h
      cases h
      obtain ⟨item, items'', fuel', rest'', rfl, hitem⟩ := items?_cons hitems
      exact .inr ⟨_, item, items'', fuel', rest'', rfl, rfl, hitem⟩
    case h_9 =>
      simp only [Option.bind_eq_bind, Option.bind_eq_some_iff] at h
      obtain ⟨_, _, h⟩ := h
      cases h
    all_goals cases h

/-- An object or an array. -/
def IsRecord (j : Json) : Prop := (∃ members, j = .obj members) ∨ ∃ items, j = .arr items

/-- Only records are read as records. -/
theorem isRecord_of_record? {fields : List (String × Need)} {j : Json}
    {values : List (Option Json)} (h : record? fields j = some values) : j.IsRecord := by
  cases j with
  | obj members => exact .inl ⟨members, rfl⟩
  | arr items => exact .inr ⟨items, rfl⟩
  | _ => cases h

/-- The tokens of a record start with a brace or bracket. -/
theorem IsRecord.exists_token {j : Json} (hj : j.IsRecord) (h : value? fuel ts = some (j, rest)) :
    ∃ t ts' c, ts = t :: ts' ∧ t.bracket? = some c ∧ c ∈ ['[', ']', '{'] := by
  rcases hj with ⟨members, rfl⟩ | ⟨items, rfl⟩
  · obtain ⟨ts', rfl⟩ := value?_obj h
    exact ⟨_, ts', _, rfl, rfl, by decide⟩
  · rcases value?_arr h with ⟨-, ts', rfl⟩ | ⟨ts', -, -, -, -, rfl, -⟩
    · exact ⟨_, _, _, rfl, rfl, by decide⟩
    · exact ⟨_, ts', _, rfl, rfl, by decide⟩

end Json

namespace Snapshot

open Json

/-- Only records are read as expressions. -/
theorem isRecord_of_expression? {j : Json} {e : Expression} (h : expression? j = some e) :
    j.IsRecord := by
  obtain ⟨values, hvalues, -⟩ := Option.bind_eq_some_iff.mp h
  exact isRecord_of_record? hvalues

/-- A database is written as an object, or as an array whose first item is an array of records. -/
theorem cases_of_database? {j : Json} {db : Database} (h : database? j = some db) :
    (∃ members, j = .obj members) ∨
      ∃ items rest, j = .arr (.arr items :: rest) ∧
        ∀ item items', items = item :: items' → item.IsRecord := by
  obtain ⟨values, hvalues, h⟩ := Option.bind_eq_some_iff.mp h
  rcases isRecord_of_record? hvalues with ⟨members, rfl⟩ | ⟨items, rfl⟩
  · exact .inl ⟨members, rfl⟩
  · cases items with
    | nil => cases hvalues
    | cons first items =>
      obtain ⟨values', -, hvalues⟩ := Option.bind_eq_some_iff.mp hvalues
      cases hvalues
      split at h
      · rename_i exprs stmts scopes heq
        cases heq
        obtain ⟨es, hes, -⟩ := Option.bind_eq_some_iff.mp h
        cases first with
        | arr first =>
          refine .inr ⟨first, items, rfl, fun item items' hfirst => ?_⟩
          rw [hfirst] at hes
          obtain ⟨e, he, -⟩ := Option.bind_eq_some_iff.mp (List.mapM_cons.symm.trans hes)
          exact isRecord_of_expression? he
        | _ => cases hes
      · cases h

/-- The text of a snapshot starts like a record. -/
theorem opensRecord_of_read {text : String} {db : Database} (h : read text = .ok db) :
    OpensRecord text.toList := by
  obtain ⟨j, hparse, hj⟩ := Option.bind_eq_some_iff.mp (read_eq_ok_iff.mp h).1
  obtain ⟨ts, hscan, hparse⟩ := Option.bind_eq_some_iff.mp hparse
  obtain ⟨⟨j', rest⟩, hvalue, hparse⟩ := Option.bind_eq_some_iff.mp hparse
  have hj' : j' = j := by
    cases rest with
    | nil => exact Option.some.inj hparse
    | cons t ts => cases hparse
  subst hj'
  rcases cases_of_database? hj with ⟨members, rfl⟩ | ⟨items, others, rfl, hitems⟩
  · obtain ⟨ts', rfl⟩ := value?_obj hvalue
    obtain ⟨rest, -, htext, -⟩ := Token.scan_bracket rfl hscan
    exact .object htext
  · rcases value?_arr hvalue with ⟨hnil, -⟩ | ⟨ts₁, item, items', fuel, rest', rfl, hcons, hitem⟩
    · cases hnil
    cases hcons
    obtain ⟨first, fuel₁, hfirst, hscan⟩ := Token.scan_bracket rfl hscan
    rcases value?_arr hitem with ⟨-, ts₂, rfl⟩ | ⟨ts₂, item, items', fuel', rest₂, rfl, hcons, hitem⟩
    · obtain ⟨second, fuel₂, hsecond, hscan⟩ := Token.scan_bracket rfl hscan
      obtain ⟨third, -, hthird, -⟩ := Token.scan_bracket rfl hscan
      exact .array hfirst hsecond hthird (by decide)
    · obtain ⟨second, fuel₂, hsecond, hscan⟩ := Token.scan_bracket rfl hscan
      obtain ⟨t, ts₃, c, rfl, ht, hc⟩ := (hitems item items' hcons).exists_token hitem
      obtain ⟨third, -, hthird, -⟩ := Token.scan_bracket ht hscan
      exact .array hfirst hsecond hthird hc

end Snapshot

/-! ## The start of settings -/

namespace Toml

variable {fuel : Nat} {doc : Document} {cs rest : List Char} {c d : Char}

/-- Without its blanks, a line of a text starts as the text does without all blanks, or it is
empty. -/
theorem skipBlanks_cases (h : cs.dropWhile Json.Token.isBlank = d :: rest) :
    skipBlanks cs = d :: rest ∨ ∃ c after, skipBlanks cs = c :: after ∧ (c = '\n' ∨ c = '\r') ∧
      after.dropWhile Json.Token.isBlank = d :: rest := by
  induction cs with
  | nil => cases h
  | cons a cs ih =>
    cases hblank : isBlank a with
    | true =>
      have hjson : Json.Token.isBlank a = true := by
        simp only [isBlank, Bool.or_eq_true, decide_eq_true_eq] at hblank
        rcases hblank with rfl | rfl <;> decide
      rw [List.dropWhile_cons_of_pos hjson] at h
      rw [skipBlanks, List.dropWhile_cons_of_pos hblank]
      exact ih h
    | false =>
      have hstop : skipBlanks (a :: cs) = a :: cs :=
        List.dropWhile_cons_of_neg (by rw [hblank]; exact Bool.false_ne_true)
      cases hjson : Json.Token.isBlank a with
      | true =>
        rw [List.dropWhile_cons_of_pos hjson] at h
        refine .inr ⟨a, cs, hstop, ?_, h⟩
        simp only [isBlank, Json.Token.isBlank, Bool.or_eq_false_iff, Bool.or_eq_true,
          decide_eq_true_eq, decide_eq_false_iff_not] at hblank hjson
        grind
      | false =>
        rw [List.dropWhile_cons_of_neg (by rw [hjson]; exact Bool.false_ne_true)] at h
        exact .inl (hstop.trans h)

/-- No key starts with a bracket or at the end of a line. -/
theorem simpleKey?_eq_none (hc : c ∈ ['[', ']', '{', '\n', '\r']) :
    simpleKey? fuel (c :: cs) = none := by
  simp only [List.mem_cons, List.not_mem_nil, or_false] at hc
  rcases hc with rfl | rfl | rfl | rfl | rfl <;> rfl

/-- No key starts with a bracket or brace. -/
theorem dottedKey?_eq_none (hd : d ∈ ['[', ']', '{'])
    (h : cs.dropWhile Json.Token.isBlank = d :: rest) : dottedKey? fuel cs = none := by
  have hkey : key? fuel cs = none := by
    cases fuel with
    | zero => rfl
    | succ fuel =>
      rw [key?]
      rcases skipBlanks_cases h with hcs | ⟨c, after, hcs, hc, -⟩
      · rw [hcs, simpleKey?_eq_none (by simp only [List.mem_cons] at hd ⊢; grind)]
        rfl
      · rw [hcs, simpleKey?_eq_none (by simp only [List.mem_cons]; grind)]
        rfl
  rw [dottedKey?, hkey]
  rfl

/-- No header starts with a bracket and another one, blanks aside, unless a key follows. -/
theorem header?_eq_none {first second third : List Char}
    (hfirst : first.dropWhile Json.Token.isBlank = '[' :: second)
    (hsecond : second.dropWhile Json.Token.isBlank = d :: third) (hd : d ∈ ['[', ']', '{']) :
    header? fuel doc ('[' :: first) = none := by
  cases first with
  | nil => cases hfirst
  | cons c first =>
    by_cases hc : c = '['
    · subst hc
      cases hfirst
      rw [header?, dottedKey?_eq_none hd hsecond]
      rfl
    · rw [header?, dottedKey?_eq_none (by decide) hfirst]
      · rfl
      · intro rest heq
        exact hc (List.cons.inj heq).1

/-- No text that starts like a record is that of a document. -/
theorem lines?_eq_none (h : OpensRecord cs) : lines? fuel doc cs = none := by
  induction fuel generalizing cs with
  | zero => rfl
  | succ fuel ih =>
    -- A line without entries is skipped, and the text after it starts in the same way.
    have hskip {c : Char} {after : List Char} (hcs : skipBlanks cs = c :: after)
        (hc : c = '\n' ∨ c = '\r')
        (hafter : after.dropWhile Json.Token.isBlank = cs.dropWhile Json.Token.isBlank) :
        lines? (fuel + 1) doc cs = none := by
      have hopens {text : List Char}
          (htext : text.dropWhile Json.Token.isBlank = cs.dropWhile Json.Token.isBlank) :
          lines? fuel doc text = none := by
        apply ih
        cases h with
        | object h => exact .object (htext.trans h)
        | array h h' h'' hmem => exact .array (htext.trans h) h' h'' hmem
      rw [lines?, hcs]
      rcases hc with rfl | rfl
      · exact hopens hafter
      · cases after with
        | nil => rfl
        | cons c after =>
          by_cases hc : c = '\n'
          · subst hc
            exact hopens hafter
          · have hend : lineEnd? ('\r' :: c :: after) = none := by
              simp [lineEnd?, skipBlanks, skipComment, newline?, isBlank, hc]
            show (lineEnd? ('\r' :: c :: after) >>= _) = none
            rw [hend]
            rfl
    cases h with
    | object h =>
      rcases skipBlanks_cases h with hcs | ⟨c, after, hcs, hc, hafter⟩
      · have hentry (rest : List Char) : entry? fuel doc ('{' :: rest) = none := by
          unfold entry?
          rw [dottedKey?_eq_none (by decide) rfl]
          rfl
        rw [lines?, hcs]
        show ( entry? fuel doc ('{' :: _) >>= _) = none
        rw [hentry]
        rfl
      · exact hskip hcs hc (hafter.trans h.symm)
    | array h hfirst hsecond hmem =>
      rcases skipBlanks_cases h with hcs | ⟨c, after, hcs, hc, hafter⟩
      · rw [lines?, hcs]
        show (header? fuel doc ('[' :: _) >>= _) = none
        rw [header?_eq_none hfirst hsecond hmem]
        rfl
      · exact hskip hcs hc (hafter.trans h.symm)

/-- A text that opens a record is no document of settings. -/
theorem parse?_eq_none {text : String} (h : OpensRecord text.toList) : parse? text = none := by
  have hmark {rest : List Char} (htext : text.toList = '\uFEFF' :: rest) : False := by
    rw [htext] at h
    cases h with
    | object h => cases h
    | array h => cases h
  rw [parse?]
  split
  · rename_i rest htext
    exact (hmark htext).elim
  · simp only [lines?_eq_none h, Option.bind_eq_bind, Option.bind_none]

end Toml

/-- What is read as a snapshot is not read as settings. -/
theorem Settings.read_of_snapshot {text : String} {db : Database}
    (h : Snapshot.read text = .ok db) : Settings.read text = .error .malformed := by
  rw [Settings.read, Toml.parse?_eq_none (Snapshot.opensRecord_of_read h)]
  rfl

end LogicCoverage
