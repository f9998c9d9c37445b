/-!
# Blanks, comments and strings of TOML

A reader takes what it reads off the front of a text and returns the rest; it fails where the text
does not start as it should.
-/

namespace LogicCoverage.Toml


def isBlank (c : Char) : Bool := c = ' ' || c = '\t'

def skipBlanks (cs : List Char) : List Char := cs.dropWhile isBlank

/-- A line break. -/
def newline? : List Char → Option (List Char)
  | '\n' :: rest => some rest
  | '\r' :: '\n' :: rest => some rest
  | _ => none

/-- Anything but a control character; a tab is none. -/
def isPrintable (c : Char) : Bool := c = '\t' || (32 ≤ c.toNat && c.toNat ≠ 127)

/-- A comment up to the end of its line. -/
def skipComment : List Char → List Char
  | '#' :: rest => rest.dropWhile isPrintable
  | cs => cs

/-- The rest of a line: blanks and a comment, then a line break or the end of the text. -/
def lineEnd? (cs : List Char) : Option (List Char) :=
  match skipComment (skipBlanks cs) with
  | [] => some []
  | rest => newline? rest

/-- Blanks, line breaks and comments, as between the items of an array. -/
def skipLines : Nat → List Char → Option (List Char)
  | 0, cs => some cs
  | fuel + 1, cs =>
    match skipBlanks cs with
    | '#' :: rest => do skipLines fuel (← newline? (rest.dropWhile isPrintable))
    | '\n' :: rest => skipLines fuel rest
    | '\r' :: rest => do skipLines fuel (← newline? ('\r' :: rest))
    | rest => some rest

def isHexDigit (c : Char) : Bool :=
  ('0' ≤ c && c ≤ '9') || ('a' ≤ c && c ≤ 'f') || ('A' ≤ c && c ≤ 'F')

def digitValue (c : Char) : Nat :=
  if c ≤ '9' then c.toNat - 48 else if c ≤ 'F' then c.toNat - 55 else c.toNat - 87

/-- The number that digits of a base stand for. -/
def valueOf (base : Nat) (digits : List Char) : Nat :=
  digits.foldl (fun n c => n * base + digitValue c) 0

/-- The character whose number is given by so many hexadecimal digits. -/
def codePoint? (count : Nat) (cs : List Char) : Option (Char × List Char) :=
  let digits := cs.take count
  let n := valueOf 16 digits
  if digits.length = count ∧ digits.all isHexDigit ∧ n.isValidChar then
    some (Char.ofNat n, cs.drop count)
  else none

/-- What a backslash stands for, given what follows it. -/
def escape? : List Char → Option (Char × List Char)
  | 'b' :: rest => some ('\x08', rest)
  | 't' :: rest => some ('\t', rest)
  | 'n' :: rest => some ('\n', rest)
  | 'f' :: rest => some ('\x0c', rest)
  | 'r' :: rest => some ('\r', rest)
  | '"' :: rest => some ('"', rest)
  | '\\' :: rest => some ('\\', rest)
  | 'u' :: rest => codePoint? 4 rest
  | 'U' :: rest => codePoint? 8 rest
  | _ => none

/-- The rest of a string in double quotes. -/
def basicRest? : Nat → List Char → Option (List Char × List Char)
  | 0, _ => none
  | fuel + 1, cs =>
    match cs with
    | '"' :: rest => some ([], rest)
    | '\\' :: rest => do
      let (c, rest) ← escape? rest
      let (s, rest) ← basicRest? fuel rest
      return (c :: s, rest)
    | c :: rest =>
      if isPrintable c then do
        let (s, rest) ← basicRest? fuel rest
        return (c :: s, rest)
      else none
    | [] => none

/-- The rest of a string in single quotes, in which nothing is escaped. -/
def literalRest? : List Char → Option (List Char × List Char)
  | [] => none
  | '\'' :: rest => some ([], rest)
  | c :: rest =>
    if isPrintable c then do
      let (s, rest) ← literalRest? rest
      return (c :: s, rest)
    else none

/-- The quotes that close a string of many lines, when three or more stand here: up to two in front
of the last three belong to the text. -/
def closing? (quote : Char) (cs : List Char) : Option (List Char × List Char) :=
  let run := (cs.takeWhile (· = quote)).length
  if run < 3 then none
  else
    let extra := min (run - 3) 2
    some (List.replicate extra quote, cs.drop (extra + 3))

/-- Blanks and line breaks after a backslash that ends a line. -/
def skipContinued : Nat → List Char → List Char
  | 0, cs => cs
  | fuel + 1, cs =>
    match newline? (skipBlanks cs) with
    | some rest => skipContinued fuel rest
    | none => skipBlanks cs

/-- The rest of a string of many lines in double quotes. -/
def longBasicRest? : Nat → List Char → Option (List Char × List Char)
  | 0, _ => none
  | fuel + 1, cs =>
    match closing? '"' cs with
    | some closed => some closed
    | none =>
      match cs with
      | '\\' :: rest =>
        match newline? (skipBlanks rest) with
        | some next => longBasicRest? fuel (skipContinued fuel next)
        | none => do
          let (c, rest) ← escape? rest
          let (s, rest) ← longBasicRest? fuel rest
          return (c :: s, rest)
      | c :: rest =>
        match newline? (c :: rest) with
        | some next => do
          let (s, rest) ← longBasicRest? fuel next
          return ('\n' :: s, rest)
        | none =>
          if isPrintable c then do
            let (s, rest) ← longBasicRest? fuel rest
            return (c :: s, rest)
          else none
      | [] => none

/-- The rest of a string of many lines in single quotes. -/
def longLiteralRest? : Nat → List Char → Option (List Char × List Char)
  | 0, _ => none
  | fuel + 1, cs =>
    match closing? '\'' cs with
    | some closed => some closed
    | none =>
      match cs with
      | c :: rest =>
        match newline? (c :: rest) with
        | some next => do
          let (s, rest) ← longLiteralRest? fuel next
          return ('\n' :: s, rest)
        | none =>
          if isPrintable c then do
            let (s, rest) ← longLiteralRest? fuel rest
            return (c :: s, rest)
          else none
      | [] => none

/-- A line break right after the opening quotes does not belong to the text. -/
def skipFirstBreak (cs : List Char) : List Char := (newline? cs).getD cs

/-- A string on one line, of at most `fuel` characters with its quotes; likewise below. -/
def shortString? (fuel : Nat) : List Char → Option (String × List Char)
  | '"' :: rest => do
    let (s, rest) ← basicRest? fuel rest
    return (String.ofList s, rest)
  | '\'' :: rest => do
    let (s, rest) ← literalRest? rest
    return (String.ofList s, rest)
  | _ => none

/-- A string of any of the four forms. -/
def string? (fuel : Nat) : List Char → Option (String × List Char)
  | '"' :: '"' :: '"' :: rest => do
    let (s, rest) ← longBasicRest? fuel (skipFirstBreak rest)
    return (String.ofList s, rest)
  | '\'' :: '\'' :: '\'' :: rest => do
    let (s, rest) ← longLiteralRest? fuel (skipFirstBreak rest)
    return (String.ofList s, rest)
  | cs => shortString? fuel cs

end LogicCoverage.Toml
