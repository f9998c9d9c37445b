import LogicCoverage.Database.Consistency
import LogicCoverage.Json.Printer
import LogicCoverage.Json.Reader
import LogicCoverage.Snapshot.Decoding
import LogicCoverage.Snapshot.Encoding

/-!
# Snapshots

The text form of a database. Only a consistent database can be read back.
-/

namespace LogicCoverage

inductive SnapshotError where
  /-- The text is not JSON, or not that of a database. -/
  | malformed
  | inconsistent (detail : Inconsistency)
deriving DecidableEq

namespace Snapshot

def write (db : Database) : String := (ofDatabase db).pretty

/-- The database that a value holds, if it is consistent. -/
def ofJson (j : Option Json) : Except SnapshotError Database :=
  match j.bind database? with
  | none => .error .malformed
  | some db =>
    match db.check with
    | .ok () => .ok db
    | .error detail => .error (.inconsistent detail)

def read (text : String) : Except SnapshotError Database := ofJson (Json.parse? text)

end Snapshot

end LogicCoverage
