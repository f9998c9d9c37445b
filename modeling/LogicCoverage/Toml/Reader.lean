import LogicCoverage.Toml.Number

/-!
# Reading TOML documents
-/

namespace LogicCoverage.Toml

def isBareKey (c : Char) : Bool :=
  ('a' ≤ c && c ≤ 'z') || ('A' ≤ c && c ≤ 'Z') || isDigit c || c = '_' || c = '-'

/-- One part of a key, of at most `fuel` characters; likewise below. -/
def simpleKey? (fuel : Nat) (cs : List Char) : Option (String × List Char) :=
  match cs with
  | c :: _ =>
    if c = '"' || c = '\'' then shortString? fuel cs
    else if isBareKey c then some (String.ofList (cs.takeWhile isBareKey), cs.dropWhile isBareKey)
    else none
  | [] => none

/-- Parts joined by points, with blanks around each. -/
def key? : Nat → List Char → Option (List String × List Char)
  | 0, _ => none
  | fuel + 1, cs => do
    let (part, rest) ← simpleKey? (fuel + 1) (skipBlanks cs)
    match skipBlanks rest with
    | '.' :: rest => do
      let (parts, rest) ← key? fuel rest
      return (part :: parts, rest)
    | rest => return ([part], rest)

/-- A key has fewer parts than this, and arrays and inline tables nest less deep. -/
def nestingLimit : Nat := 80

/-- A key of a moderate number of parts. -/
def dottedKey? (fuel : Nat) (cs : List Char) : Option (List String × List Char) := do
  let (parts, rest) ← key? fuel cs
  if parts.length < nestingLimit then return (parts, rest) else none

/-- Adds a value under a key of one part or more. -/
def insertKey (key : List String) (value : Toml) (es : Entries) : Option Entries := do
  es.insert (← key.getLast?) value key.dropLast

mutual

/-- A value; `depth` more arrays and inline tables may be opened. Twice as much fuel as there are
characters is enough, since an opening bracket takes two calls. -/
def value? : Nat → Nat → List Char → Option (Toml × List Char)
  | 0, _, _ => none
  | fuel + 1, depth, cs =>
    match cs with
    | '"' :: _ => do
      let (s, rest) ← string? fuel cs
      return (.string s, rest)
    | '\'' :: _ => do
      let (s, rest) ← string? fuel cs
      return (.string s, rest)
    | '[' :: rest =>
      match depth with
      | 0 => none
      | depth + 1 => do
        let (items, rest) ← items? fuel depth rest
        return (.array items, rest)
    | '{' :: rest =>
      match depth with
      | 0 => none
      | depth + 1 => do
        match skipBlanks rest with
        | '}' :: rest => return (.table .inline [], rest)
        | rest => do
          let (es, rest) ← inline? fuel depth [] rest
          return (.table .inline es, rest)
    | 't' :: 'r' :: 'u' :: 'e' :: rest => some (.bool true, rest)
    | 'f' :: 'a' :: 'l' :: 's' :: 'e' :: rest => some (.bool false, rest)
    | 'i' :: _ => float? cs
    | 'n' :: _ => float? cs
    | _ => number? cs

/-- The items of an array and its closing bracket. -/
def items? : Nat → Nat → List Char → Option (List Toml × List Char)
  | 0, _, _ => none
  | fuel + 1, depth, cs => do
    match ← skipLines fuel cs with
    | ']' :: rest => return ([], rest)
    | cs => do
      let (item, rest) ← value? fuel depth cs
      match ← skipLines fuel rest with
      | ']' :: rest => return ([item], rest)
      | ',' :: rest => do
        let (items, rest) ← items? fuel depth rest
        return (item :: items, rest)
      | _ => none

/-- The entries of an inline table and its closing brace. -/
def inline? : Nat → Nat → Entries → List Char → Option (Entries × List Char)
  | 0, _, _, _ => none
  | fuel + 1, depth, es, cs => do
    let (key, rest) ← dottedKey? fuel cs
    let (value, rest) ← value? fuel depth (skipBlanks (← char? '=' rest))
    let es ← insertKey key value es
    match skipBlanks rest with
    | '}' :: rest => return (es, rest)
    | ',' :: rest => inline? fuel depth es rest
    | _ => none

end

/-- What has been read of a document, and the path of the table that entries go to. -/
structure Document where
  entries : Entries
  path : List String

/-- A header in single or double brackets, up to the end of its line. -/
def header? (fuel : Nat) (doc : Document) : List Char → Option (Document × List Char)
  | '[' :: '[' :: rest => do
    let (key, rest) ← dottedKey? fuel rest
    let rest ← lineEnd? (← char? ']' (← char? ']' rest))
    let es ← doc.entries.change (Entries.defineNext (← key.getLast?)) key.dropLast
    return (⟨es, key⟩, rest)
  | '[' :: rest => do
    let (key, rest) ← dottedKey? fuel rest
    let rest ← lineEnd? (← char? ']' rest)
    let es ← doc.entries.change (Entries.define (← key.getLast?)) key.dropLast
    return (⟨es, key⟩, rest)
  | _ => none

/-- An entry, up to the end of its line. -/
def entry? (fuel : Nat) (doc : Document) (cs : List Char) : Option (Document × List Char) := do
  let (key, rest) ← dottedKey? fuel cs
  let rest := skipBlanks (← char? '=' rest)
  let (value, rest) ← value? fuel (nestingLimit - 1) rest
  let rest ← lineEnd? rest
  let es ← doc.entries.change (insertKey key value) doc.path
  return ({ doc with entries := es }, rest)

/-- The lines of a document. Each line takes one call, so that twice as much fuel as there are
characters, and some more, leaves enough for what the lines hold. -/
def lines? : Nat → Document → List Char → Option Document
  | 0, _, _ => none
  | fuel + 1, doc, cs =>
    match skipBlanks cs with
    | [] => some doc
    | '[' :: rest => do
      let (doc, rest) ← header? fuel doc ('[' :: rest)
      lines? fuel doc rest
    | c :: rest =>
      if c = '#' || c = '\n' || c = '\r' then do lines? fuel doc (← lineEnd? (c :: rest))
      else do
        let (doc, rest) ← entry? fuel doc (c :: rest)
        lines? fuel doc rest

/-- The entries of a document. A mark of byte order may stand in front. -/
def parse? (s : String) : Option Entries := do
  let cs := match s.toList with
    | '\uFEFF' :: rest => rest
    | cs => cs
  return (← lines? (2 * cs.length + 2) ⟨[], []⟩ cs).entries

end LogicCoverage.Toml
