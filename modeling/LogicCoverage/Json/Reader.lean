import LogicCoverage.Json.Token
import LogicCoverage.Json.Value

/-!
# Reading JSON
-/

namespace LogicCoverage.Json

mutual

/-- A value in front of other tokens. Every second call takes a token, so twice their number is
enough fuel. -/
def value? : Nat → List Token → Option (Json × List Token)
  | 0, _ => none
  | fuel + 1, tokens =>
    match tokens with
    | .null :: rest => some (.null, rest)
    | .bool b :: rest => some (.bool b, rest)
    | .nat n :: rest => some (.nat n, rest)
    | .number literal :: rest => some (.number literal, rest)
    | .str text :: rest => some (.str text, rest)
    | .openArray :: .closeArray :: rest => some (.arr [], rest)
    | .openArray :: rest => do
      let (items, rest) ← items? fuel rest
      return (.arr items, rest)
    | .openObject :: .closeObject :: rest => some (.obj [], rest)
    | .openObject :: rest => do
      let (members, rest) ← members? fuel rest
      return (.obj members, rest)
    | _ => none

/-- One item or more, and the closing bracket. -/
def items? : Nat → List Token → Option (List Json × List Token)
  | 0, _ => none
  | fuel + 1, tokens => do
    let (item, rest) ← value? fuel tokens
    match rest with
    | .closeArray :: rest => return ([item], rest)
    | .comma :: rest => do
      let (items, rest) ← items? fuel rest
      return (item :: items, rest)
    | _ => none

/-- One member or more, and the closing brace. -/
def members? : Nat → List Token → Option (List (Option String × Json) × List Token)
  | 0, _ => none
  | fuel + 1, tokens =>
    match tokens with
    | .str key :: .colon :: rest => do
      let (value, rest) ← value? fuel rest
      match rest with
      | .closeObject :: rest => return ([(key, value)], rest)
      | .comma :: rest => do
        let (members, rest) ← members? fuel rest
        return ((key, value) :: members, rest)
      | _ => none
    | _ => none

end

/-- The value that the tokens spell. -/
def ofTokens (tokens : List Token) : Option Json := do
  match ← value? (2 * tokens.length + 1) tokens with
  | (value, []) => return value
  | _ => none

/-- The value that a text spells. -/
def parse? (s : String) : Option Json := do ofTokens (← Token.ofText s)

end LogicCoverage.Json
