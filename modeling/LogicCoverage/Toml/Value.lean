/-!
# TOML values and tables

A table remembers how it came about, since that decides who may still add to it: headers may complete
tables that only a longer header has implied, dotted keys may extend tables that dotted keys have
made, and an inline table is complete as it stands.
-/

namespace LogicCoverage

/-- How a table came about. -/
inductive Toml.Origin where
  | inline
  /-- By a header of its own. -/
  | header
  /-- By the header of a table below it. -/
  | implied
  /-- By a dotted key. -/
  | dotted
deriving DecidableEq

/-- A TOML value as far as settings tell values apart. -/
inductive Toml where
  | bool (b : Bool)
  | int (n : Int)
  | string (s : String)
  | float
  | datetime
  | array (items : List Toml)
  | table (origin : Toml.Origin) (entries : List (String × Toml))
  /-- The tables that repeated headers in double brackets have made. -/
  | tables (items : List (List (String × Toml)))

namespace Toml

/-- The entries of a table, in order. -/
abbrev Entries := List (String × Toml)

namespace Entries

/-- Replaces the value of a key, or adds the key. -/
def put (key : String) (value : Toml) : Entries → Entries
  | [] => [(key, value)]
  | (k, v) :: rest => if k = key then (key, value) :: rest else (k, v) :: put key value rest

/-- Adds a value under a dotted key; refuses to add to a key that is taken. -/
def insert (key : String) (value : Toml) : List String → Entries → Option Entries
  | [], es => if (es.lookup key).isSome then none else some (es.put key value)
  | k :: path, es =>
    match es.lookup k with
    | none => do return es.put k (.table .dotted (← insert key value path []))
    | some (.table .dotted sub) => do return es.put k (.table .dotted (← insert key value path sub))
    | some (.table .implied sub) =>
      if path.isEmpty then none
      else do return es.put k (.table .implied (← insert key value path sub))
    | some _ => none

/-- Changes the table at a path of header keys; of repeated tables, the last one. Tables that do not
exist yet are implied. -/
def change (f : Entries → Option Entries) : List String → Entries → Option Entries
  | [], es => f es
  | k :: path, es =>
    match es.lookup k with
    | none => do return es.put k (.table .implied (← change f path []))
    | some (.table .inline _) => none
    | some (.table origin sub) => do return es.put k (.table origin (← change f path sub))
    | some (.tables items) =>
      match items.getLast? with
      | some last => do return es.put k (.tables (items.dropLast ++ [← change f path last]))
      | none => none
    | some _ => none

/-- Makes the table of a header. -/
def define (key : String) (es : Entries) : Option Entries :=
  match es.lookup key with
  | none => some (es.put key (.table .header []))
  | some (.table .implied sub) => some (es.put key (.table .header sub))
  | some _ => none

/-- Makes one more table of a header in double brackets. -/
def defineNext (key : String) (es : Entries) : Option Entries :=
  match es.lookup key with
  | none => some (es.put key (.tables [[]]))
  | some (.tables items) => some (es.put key (.tables (items ++ [[]])))
  | some _ => none

end Entries

end Toml

end LogicCoverage
