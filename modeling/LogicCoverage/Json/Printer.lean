import LogicCoverage.Json.Quoted
import LogicCoverage.Json.Value

/-!
# Writing JSON

Two forms: without blanks, and with one item or member a line, two blanks deeper than what holds it.
Each function puts its text in front of `rest`.
-/

namespace LogicCoverage.Json

/-- A value without parts. -/
def scalarText : Json → List Char
  | .null => ['n', 'u', 'l', 'l']
  | .bool true => ['t', 'r', 'u', 'e']
  | .bool false => ['f', 'a', 'l', 's', 'e']
  | .nat n => Nat.toDigits 10 n
  | .number literal => literal.toList
  | .str text => Quoted.write (text.getD "")
  | .arr _ => []
  | .obj _ => []

/-- A key and its colon. -/
def keyText (key : Option String) : List Char := Quoted.write (key.getD "") ++ [':']

mutual

def writeCompact : Json → List Char → List Char
  | .arr [], rest => '[' :: ']' :: rest
  | .arr (item :: items), rest => '[' :: writeCompact item (writeItems items rest)
  | .obj [], rest => '{' :: '}' :: rest
  | .obj ((key, value) :: members), rest =>
    '{' :: keyText key ++ writeCompact value (writeMembers members rest)
  | scalar, rest => scalarText scalar ++ rest

def writeItems : List Json → List Char → List Char
  | [], rest => ']' :: rest
  | item :: items, rest => ',' :: writeCompact item (writeItems items rest)

def writeMembers : List (Option String × Json) → List Char → List Char
  | [], rest => '}' :: rest
  | (key, value) :: members, rest =>
    ',' :: keyText key ++ writeCompact value (writeMembers members rest)

end

/-- The start of a line at a nesting depth. -/
def newLine (depth : Nat) : List Char := '\n' :: List.replicate (2 * depth) ' '

mutual

def writePretty (depth : Nat) : Json → List Char → List Char
  | .arr [], rest => '[' :: ']' :: rest
  | .arr (item :: items), rest =>
    '[' :: newLine (depth + 1) ++ writePretty (depth + 1) item (prettyItems depth items rest)
  | .obj [], rest => '{' :: '}' :: rest
  | .obj ((key, value) :: members), rest =>
    '{' :: newLine (depth + 1) ++ keyText key ++
      ' ' :: writePretty (depth + 1) value (prettyMembers depth members rest)
  | scalar, rest => scalarText scalar ++ rest

def prettyItems (depth : Nat) : List Json → List Char → List Char
  | [], rest => newLine depth ++ ']' :: rest
  | item :: items, rest =>
    ',' :: newLine (depth + 1) ++ writePretty (depth + 1) item (prettyItems depth items rest)

def prettyMembers (depth : Nat) : List (Option String × Json) → List Char → List Char
  | [], rest => newLine depth ++ '}' :: rest
  | (key, value) :: members, rest =>
    ',' :: newLine (depth + 1) ++ keyText key ++
      ' ' :: writePretty (depth + 1) value (prettyMembers depth members rest)

end

/-- The text of a value on one line. -/
def compact (v : Json) : String := String.ofList (writeCompact v [])

/-- The text of a value on many lines. -/
def pretty (v : Json) : String := String.ofList (writePretty 0 v [])

end LogicCoverage.Json
