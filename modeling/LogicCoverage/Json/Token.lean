import LogicCoverage.Json.Quoted

/-!
# Tokens of JSON text
-/

namespace LogicCoverage.Json

inductive Token where
  | openArray | closeArray | openObject | closeObject | colon | comma
  | null
  | bool (b : Bool)
  | nat (n : Nat)
  | number (literal : String)
  | str (text : Option String)
deriving DecidableEq

namespace Token

def isBlank (c : Char) : Bool := c = ' ' || c = '\n' || c = '\t' || c = '\r'

/-- ASCII digits only. -/
def isDigit (c : Char) : Bool := '0' ≤ c && c ≤ '9'

/-- The number that digits stand for. -/
def natOf (digits : List Char) : Nat := digits.foldl (fun n c => n * 10 + (c.toNat - 48)) 0

/-- A whole number without superfluous zeros in front, and what follows it. -/
def whole? : List Char → Option (List Char × List Char)
  | '0' :: rest => some (['0'], rest)
  | cs =>
    match cs.takeWhile isDigit with
    | [] => none
    | digits => some (digits, cs.dropWhile isDigit)

/-- One digit or more, and what follows. -/
def digits? (cs : List Char) : Option (List Char × List Char) :=
  match cs.takeWhile isDigit with
  | [] => none
  | digits => some (digits, cs.dropWhile isDigit)

/-- A fraction, if a point stands here. -/
def fraction? : List Char → Option (List Char × List Char)
  | '.' :: rest => do
    let (digits, rest) ← digits? rest
    return ('.' :: digits, rest)
  | cs => some ([], cs)

/-- An exponent after its letter and sign. -/
def exponentDigits? (written : List Char) (cs : List Char) : Option (List Char × List Char) := do
  let (digits, rest) ← digits? cs
  return (written ++ digits, rest)

/-- An exponent, if its letter stands here. -/
def exponent? : List Char → Option (List Char × List Char)
  | 'e' :: '+' :: rest => exponentDigits? ['e', '+'] rest
  | 'e' :: '-' :: rest => exponentDigits? ['e', '-'] rest
  | 'e' :: rest => exponentDigits? ['e'] rest
  | 'E' :: '+' :: rest => exponentDigits? ['E', '+'] rest
  | 'E' :: '-' :: rest => exponentDigits? ['E', '-'] rest
  | 'E' :: rest => exponentDigits? ['E'] rest
  | cs => some ([], cs)

/-- A number without its sign. -/
def unsigned? (sign : List Char) (cs : List Char) : Option (Token × List Char) := do
  let (digits, rest) ← whole? cs
  let (fraction, rest) ← fraction? rest
  let (exponent, rest) ← exponent? rest
  if sign.isEmpty && fraction.isEmpty && exponent.isEmpty then return (.nat (natOf digits), rest)
  else return (.number (String.ofList (sign ++ digits ++ fraction ++ exponent)), rest)

/-- The token that starts here, and what follows it. -/
def next? : List Char → Option (Token × List Char)
  | '[' :: rest => some (.openArray, rest)
  | ']' :: rest => some (.closeArray, rest)
  | '{' :: rest => some (.openObject, rest)
  | '}' :: rest => some (.closeObject, rest)
  | ':' :: rest => some (.colon, rest)
  | ',' :: rest => some (.comma, rest)
  | '"' :: rest => do
    let (text, rest) ← Quoted.read rest
    return (.str text, rest)
  | 'n' :: 'u' :: 'l' :: 'l' :: rest => some (.null, rest)
  | 't' :: 'r' :: 'u' :: 'e' :: rest => some (.bool true, rest)
  | 'f' :: 'a' :: 'l' :: 's' :: 'e' :: rest => some (.bool false, rest)
  | '-' :: rest => unsigned? ['-'] rest
  | cs => unsigned? [] cs

/-- The tokens of a text of at most `fuel` characters. -/
def scan : Nat → List Char → Option (List Token)
  | _, [] => some []
  | 0, _ => none
  | fuel + 1, c :: rest =>
    if isBlank c then scan fuel rest
    else do
      let (token, rest) ← next? (c :: rest)
      return token :: (← scan fuel rest)

/-- The tokens of a text. -/
def ofText (s : String) : Option (List Token) :=
  let cs := s.toList
  scan cs.length cs

end Token

end LogicCoverage.Json
