/-!
# JSON values
-/

namespace LogicCoverage

/-- A JSON value as far as readers tell values apart. The text of a string is absent when the
literal escapes a lone surrogate: such a literal is well-formed, so it can be skipped, but it stands
for no text. Members keep their order, and keys may repeat. -/
inductive Json where
  | null
  | bool (b : Bool)
  /-- A number written in digits alone. -/
  | nat (n : Nat)
  /-- A number with a sign, a fraction or an exponent. -/
  | number (literal : String)
  | str (text : Option String)
  | arr (items : List Json)
  | obj (members : List (Option String × Json))

instance : Inhabited Json := ⟨.null⟩

namespace Json

/-- A string with text. -/
def string (s : String) : Json := .str (some s)

/-- An object whose keys have text. -/
def object (members : List (String × Json)) : Json :=
  .obj (members.map fun (key, value) => (some key, value))

/-- A number that may be negative. -/
def int (n : Int) : Json :=
  match n with
  | .ofNat n => .nat n
  | .negSucc n => .number ("-" ++ (n + 1).repr)

/-- The values of all members with that key. -/
def members (key : String) : Json → List Json
  | .obj members => (members.filter fun m => m.1 == some key).map (·.2)
  | _ => []

end Json

end LogicCoverage
