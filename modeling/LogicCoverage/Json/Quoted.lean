/-!
# Quoted strings

Inside quotes, a quote, a backslash and the control characters are escaped. A reader also takes
`\/` and `\u` with four hexadecimal digits; two such escapes that form a surrogate pair stand for
one character, and a surrogate alone stands for none.
-/

namespace LogicCoverage.Json.Quoted

/-- A digit below 16. -/
def hexDigit (n : Nat) : Char :=
  if n < 10 then Char.ofNat (48 + n) else Char.ofNat (87 + n)

/-- The value of a hexadecimal digit of either case. -/
def hexValue? (c : Char) : Option Nat :=
  if '0' ≤ c ∧ c ≤ '9' then some (c.toNat - 48)
  else if 'a' ≤ c ∧ c ≤ 'f' then some (c.toNat - 87)
  else if 'A' ≤ c ∧ c ≤ 'F' then some (c.toNat - 55)
  else none

/-- How a character is written. -/
def escape (c : Char) : List Char :=
  match c with
  | '"' => ['\\', '"']
  | '\\' => ['\\', '\\']
  | '\x08' => ['\\', 'b']
  | '\x0c' => ['\\', 'f']
  | '\n' => ['\\', 'n']
  | '\r' => ['\\', 'r']
  | '\t' => ['\\', 't']
  | c =>
    if c.toNat < 32 then
      ['\\', 'u', '0', '0', hexDigit (c.toNat / 16), hexDigit (c.toNat % 16)]
    else [c]

/-- A text between quotes. -/
def write (s : String) : List Char := '"' :: s.toList.flatMap escape ++ ['"']

/-- The character that a backslash and one more character stand for. -/
def shortEscape? : Char → Option Char
  | '"' => some '"'
  | '\\' => some '\\'
  | '/' => some '/'
  | 'b' => some '\x08'
  | 'f' => some '\x0c'
  | 'n' => some '\n'
  | 'r' => some '\r'
  | 't' => some '\t'
  | _ => none

/-- What stands between quotes: characters, and 16-bit units given by number. -/
inductive Piece where
  | char (c : Char)
  | unit (n : Nat)

def unit? (a b c d : Char) : Option Nat := do
  return (((← hexValue? a) * 16 + (← hexValue? b)) * 16 + (← hexValue? c)) * 16 + (← hexValue? d)

/-- Reads up to the closing quote. -/
def pieces : List Char → Option (List Piece × List Char)
  | [] => none
  | '"' :: rest => some ([], rest)
  | '\\' :: 'u' :: a :: b :: c :: d :: rest => do
    let n ← unit? a b c d
    let (found, rest) ← pieces rest
    return (.unit n :: found, rest)
  | '\\' :: e :: rest => do
    let c ← shortEscape? e
    let (found, rest) ← pieces rest
    return (.char c :: found, rest)
  | c :: rest =>
    if c.toNat < 32 ∨ c = '\\' then none
    else do
      let (found, rest) ← pieces rest
      return (.char c :: found, rest)

def isHigh (n : Nat) : Bool := 0xD800 ≤ n && n < 0xDC00

def isLow (n : Nat) : Bool := 0xDC00 ≤ n && n < 0xE000

/-- The characters that the pieces stand for; none if a surrogate stands alone. -/
def text? : List Piece → Option (List Char)
  | [] => some []
  | .char c :: rest => do return c :: (← text? rest)
  | .unit hi :: .unit lo :: rest =>
    if isHigh hi && isLow lo then do
      return Char.ofNat (0x10000 + (hi - 0xD800) * 0x400 + (lo - 0xDC00)) :: (← text? rest)
    else if isHigh hi || isLow hi then none
    else do return Char.ofNat hi :: (← text? (.unit lo :: rest))
  | .unit n :: rest =>
    if isHigh n || isLow n then none else do return Char.ofNat n :: (← text? rest)

/-- Reads a text that starts after the opening quote: what it stands for, and what follows it. -/
def read (cs : List Char) : Option (Option String × List Char) := do
  let (found, rest) ← pieces cs
  return ((text? found).map String.ofList, rest)

end LogicCoverage.Json.Quoted
