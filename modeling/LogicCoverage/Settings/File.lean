import LogicCoverage.Settings
import LogicCoverage.Toml.Reader

/-!
# The settings file

A settings file has the tables `combinational` (`multi_expr`, `bitwise`, `depth`) and `scoring`
(`per_instance`). Everything may be left out, and nothing else may stand there. A table may also be
given as the array of its values in that order.
-/

namespace LogicCoverage

inductive SettingsError where
  /-- Not TOML, or not the tables of a settings file. -/
  | malformed
  /-- The depth budget is out of range. -/
  | depthTooLarge (depth : UInt32)
deriving DecidableEq

namespace Settings

/-- The name under which settings are looked for. -/
def fileName : String := "loupe.toml"

/-- Deeper trees are scored without a budget. -/
def maxDepth : UInt32 := 1024

end Settings

def SettingsError.message : SettingsError → String
  | malformed => "malformed " ++ Settings.fileName
  | depthTooLarge depth =>
    "invalid coverage setting: combinational.depth " ++ depth.toNat.repr ++
      " exceeds the maximum of " ++ Settings.maxDepth.toNat.repr ++
      "; omit it to score every level"

namespace Settings

/-- The values of the named fields of a table, where given; fails on other keys. Of an array, values
beyond the last field are ignored. -/
def fields? (names : List String) : Toml → Option (List (Option Toml))
  | .table _ entries =>
    if entries.all fun e => names.contains e.1 then some (names.map fun name => entries.lookup name)
    else none
  | .array items => some (names.zipIdx.map fun (_, i) => items[i]?)
  | .tables items => some (names.zipIdx.map fun (_, i) => items[i]?.map (.table .header))
  | _ => none

def bool? : Toml → Option Bool
  | .bool b => some b
  | _ => none

def word? : Toml → Option UInt32
  | .int n => if 0 ≤ n ∧ n < UInt32.size then some (UInt32.ofNat n.toNat) else none
  | _ => none

/-- The value of a field, or its default where it is not given. -/
def fieldOr? {α : Type} (default : α) (read : Toml → Option α) : Option Toml → Option α
  | none => some default
  | some v => read v

def scoring? (v : Toml) : Option ScoringConfig := do
  match ← fields? ["multi_expr", "bitwise", "depth"] v with
  | [multi, bitwise, depth] =>
    return {
      chains := ← fieldOr? true bool? multi
      bitwise := ← fieldOr? false bool? bitwise
      depthBudget := ← fieldOr? none (fun v => (word? v).map some) depth }
  | _ => none

def perInstance? (v : Toml) : Option Bool := do
  match ← fields? ["per_instance"] v with
  | [perInstance] => fieldOr? false bool? perInstance
  | _ => none

/-- The settings that a document holds. -/
def ofToml? (entries : Toml.Entries) : Option Settings := do
  match ← fields? ["combinational", "scoring"] (.table .header entries) with
  | [combinational, scoring] =>
    return {
      scoring := ← fieldOr? .default scoring? combinational
      perInstance := ← fieldOr? false perInstance? scoring }
  | _ => none

/-- The settings that a file holds. -/
def read (text : String) : Except SettingsError Settings :=
  match (Toml.parse? text).bind ofToml? with
  | none => .error .malformed
  | some settings =>
    match settings.scoring.depthBudget with
    | some depth => if maxDepth < depth then .error (.depthTooLarge depth) else .ok settings
    | none => .ok settings

end Settings

end LogicCoverage
