import LogicCoverage.Toml.Text
import LogicCoverage.Toml.Value

/-!
# Numbers, dates and times of TOML
-/

namespace LogicCoverage.Toml

def isDigit (c : Char) : Bool := '0' ≤ c && c ≤ '9'

/-- Digits, each of which may follow an underscore. -/
def digitTail? (p : Char → Bool) : List Char → Option (List Char × List Char)
  | [] => some ([], [])
  | '_' :: c :: rest =>
    if p c then do
      let (digits, rest) ← digitTail? p rest
      return (c :: digits, rest)
    else none
  | c :: rest =>
    if c = '_' then none
    else if p c then do
      let (digits, rest) ← digitTail? p rest
      return (c :: digits, rest)
    else some ([], c :: rest)

/-- A digit, and more of them that may follow underscores. -/
def digits? (p : Char → Bool) : List Char → Option (List Char × List Char)
  | c :: rest =>
    if p c then do
      let (digits, rest) ← digitTail? p rest
      return (c :: digits, rest)
    else none
  | [] => none

/-- Whether a minus stands here; a plus is skipped. -/
def sign : List Char → Bool × List Char
  | '-' :: rest => (true, rest)
  | '+' :: rest => (false, rest)
  | cs => (false, cs)

/-- The digits of a decimal number that does not start with a superfluous zero. -/
def decimal? : List Char → Option (List Char × List Char)
  | '0' :: rest => some (['0'], rest)
  | cs => digits? isDigit cs

/-- Whole numbers are signed 64-bit words. -/
def inRange (n : Int) : Bool := Int64.minValue.toInt ≤ n && n ≤ Int64.maxValue.toInt

def whole? (negative : Bool) (base : Nat) (digits : List Char) (rest : List Char) : Option (Toml × List Char) :=
  let n : Int := valueOf base digits
  let n := if negative then -n else n
  if inRange n then some (.int n, rest) else none

def integer? : List Char → Option (Toml × List Char)
  | '0' :: 'x' :: rest => do
    let (digits, rest) ← digits? isHexDigit rest
    whole? false 16 digits rest
  | '0' :: 'o' :: rest => do
    let (digits, rest) ← digits? (fun c => '0' ≤ c && c ≤ '7') rest
    whole? false 8 digits rest
  | '0' :: 'b' :: rest => do
    let (digits, rest) ← digits? (fun c => c = '0' || c = '1') rest
    whole? false 2 digits rest
  | cs => do
    let (negative, rest) := sign cs
    let (digits, rest) ← decimal? rest
    whole? negative 10 digits rest

/-- A fraction, if a point stands here. -/
def fraction? : List Char → Option (Option (List Char) × List Char)
  | '.' :: rest => do
    let (digits, rest) ← digits? isDigit rest
    return (some digits, rest)
  | cs => some (none, cs)

/-- An exponent, if its letter stands here. -/
def exponent? : List Char → Option (Option Int × List Char)
  | c :: rest =>
    if c = 'e' || c = 'E' then do
      let (negative, rest) := sign rest
      let (digits, rest) ← digits? isDigit rest
      let n : Int := valueOf 10 digits
      return (some (if negative then -n else n), rest)
    else some (none, c :: rest)
  | [] => some (none, [])

/-- The decimal `m * 10 ^ e` is nearer to the power of two after the largest binary64 number than
to that number, or as near. -/
def exceedsFloat (m : Nat) (e : Int) : Bool :=
  let magnitude : Int := (Nat.toDigits 10 m).length + e
  if m = 0 || magnitude < 300 then false
  else if 320 < magnitude then true
  else
    let bound := (1 <<< 1024) - (1 <<< 970)
    if 0 ≤ e then bound ≤ m * Nat.pow 10 e.toNat else bound * Nat.pow 10 (-e).toNat ≤ m

def float? (cs : List Char) : Option (Toml × List Char) := do
  let (negative, rest) := sign cs
  match rest with
  | 'i' :: 'n' :: 'f' :: rest => return (.float, rest)
  | 'n' :: 'a' :: 'n' :: rest => return (.float, rest)
  | _ =>
    let (digits, rest) ← decimal? rest
    let (fraction, rest) ← fraction? rest
    let (exponent, rest) ← exponent? rest
    if fraction.isNone && exponent.isNone then none
    else
      let fraction := fraction.getD []
      let m := valueOf 10 (digits ++ fraction)
      if !negative && exceedsFloat m (exponent.getD 0 - fraction.length) then none
      else return (.float, rest)

/-- A number of so many digits. -/
def fixed? (count : Nat) (cs : List Char) : Option (Nat × List Char) :=
  let digits := cs.take count
  if digits.length = count ∧ digits.all isDigit then some (valueOf 10 digits, cs.drop count) else none

/-- A number of two digits within bounds. -/
def twoDigits? (low high : Nat) (cs : List Char) : Option (Nat × List Char) := do
  let (n, rest) ← fixed? 2 cs
  if low ≤ n ∧ n ≤ high then return (n, rest) else none

/-- A given character. -/
def char? (c : Char) : List Char → Option (List Char)
  | d :: rest => if d = c then some rest else none
  | [] => none

def daysIn (year month : Nat) : Nat :=
  if month = 2 then
    if year % 4 = 0 ∧ (year % 100 ≠ 0 ∨ year % 400 = 0) then 29 else 28
  else if month = 4 ∨ month = 6 ∨ month = 9 ∨ month = 11 then 30
  else 31

def date? (cs : List Char) : Option (List Char) := do
  let (year, rest) ← fixed? 4 cs
  let (month, rest) ← twoDigits? 1 12 (← char? '-' rest)
  let (_, rest) ← twoDigits? 1 (daysIn year month) (← char? '-' rest)
  return rest

def time? (cs : List Char) : Option (List Char) := do
  let (_, rest) ← twoDigits? 0 23 cs
  let (_, rest) ← twoDigits? 0 59 (← char? ':' rest)
  let (_, rest) ← twoDigits? 0 60 (← char? ':' rest)
  match rest with
  | '.' :: c :: rest => if isDigit c then return rest.dropWhile isDigit else none
  | '.' :: [] => none
  | rest => return rest

/-- An offset from universal time, if one stands here. -/
def offset? : List Char → Option (List Char)
  | 'Z' :: rest => some rest
  | 'z' :: rest => some rest
  | c :: rest =>
    if c = '+' || c = '-' then do
      let (_, rest) ← twoDigits? 0 23 rest
      let (_, rest) ← twoDigits? 0 59 (← char? ':' rest)
      return rest
    else some (c :: rest)
  | [] => some []

/-- A date, a time, or both. -/
def datetime? (cs : List Char) : Option (Toml × List Char) :=
  match date? cs with
  | some rest =>
    match rest with
    | c :: after =>
      if c = 'T' || c = 't' || c = ' ' then
        match time? after with
        | some rest => do return (.datetime, ← offset? rest)
        | none => some (.datetime, rest)
      else some (.datetime, rest)
    | [] => some (.datetime, [])
  | none => do return (.datetime, ← time? cs)

/-- A number, a date or a time. -/
def number? (cs : List Char) : Option (Toml × List Char) := datetime? cs <|> float? cs <|> integer? cs

end LogicCoverage.Toml
