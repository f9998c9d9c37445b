import LogicCoverage.Json.Value

/-!
# Records in JSON

A record is an object, of which unknown members are ignored and no known one may be repeated, or
the array of its values in order.
-/

namespace LogicCoverage.Json

/-- What to do about a field that is not there. -/
inductive Need where
  /-- Refuse the record. -/
  | required
  /-- Take it as null; an array has to hold it all the same. -/
  | nullable
  /-- Take its default. -/
  | defaulted
deriving DecidableEq

/-- The value of a field of an object, if it is given; fails on repetition, or for want of it. -/
def field? (value : Json) (name : String) (need : Need) : Option (Option Json) :=
  match value.members name, need with
  | [], .required => none
  | [], .nullable => some (some .null)
  | [], .defaulted => some none
  | [v], _ => some (some v)
  | _, _ => none

/-- The values of the fields of an array. -/
def positional? : List (String × Need) → List Json → Option (List (Option Json))
  | [], [] => some []
  | [], _ :: _ => none
  | (_, need) :: fields, [] =>
    if need = .defaulted then do return none :: (← positional? fields []) else none
  | _ :: fields, v :: values => do return some v :: (← positional? fields values)

/-- The values of a record's fields, in the order of the fields. -/
def record? (fields : List (String × Need)) : Json → Option (List (Option Json))
  | .obj members =>
    if members.all fun m => m.1.isSome then
      fields.mapM fun (name, need) => field? (.obj members) name need
    else none
  | .arr values => positional? fields values
  | _ => none

/-- A field that is always given. -/
def given? {α : Type} (read : Json → Option α) (field : Option Json) : Option α := field.bind read

/-- A field with a default. -/
def givenOr? {α : Type} (default : α) (read : Json → Option α) : Option Json → Option α
  | none => some default
  | some v => read v

/-- Null, or something. -/
def nullable? {α : Type} (read : Json → Option α) : Json → Option (Option α)
  | .null => some none
  | v => (read v).map some

def bool? : Json → Option Bool
  | .bool b => some b
  | _ => none

def uint32? : Json → Option UInt32
  | .nat n => if n < UInt32.size then some (UInt32.ofNat n) else none
  | _ => none

def uint64? : Json → Option UInt64
  | .nat n => if n < UInt64.size then some (UInt64.ofNat n) else none
  | _ => none

def string? : Json → Option String
  | .str text => text
  | _ => none

def list? {α : Type} (read : Json → Option α) : Json → Option (List α)
  | .arr items => items.mapM read
  | _ => none

/-- A bare name, or an object whose only member has that name and no value. -/
def name? : Json → Option String
  | .str text => text
  | .obj [(key, .null)] => key
  | _ => none

end LogicCoverage.Json
