import LogicCoverage.Attempt
import LogicCoverage.Command.Arguments
import LogicCoverage.Command.Files
import LogicCoverage.Report
import LogicCoverage.Settings.File
import LogicCoverage.Snapshot.Text

/-!
# Running commands

A command reads its files, and `exclude` writes the snapshot back once everything has succeeded.
What has been written by the time that a command fails stays written.
-/

namespace LogicCoverage

/-- Why a run fails. -/
inductive Failure where
  | usage (error : UsageError)
  | settingsFile (error : FileError)
  | settings (error : SettingsError)
  | snapshotFile (error : FileError)
  | snapshot (error : SnapshotError)
  | refused (refusal : Refusal)
deriving DecidableEq

/-- What a run prints. -/
structure Output where
  stdout : String
  stderr : String
deriving DecidableEq

/-- What a run leaves behind. -/
structure Run where
  files : Files
  result : Except Failure Output

/-- What a command does to the files that it finds. -/
abbrev Shell := Attempt Failure Files

namespace Failure

def message : Failure → String
  | usage _ => "the command line is not understood"
  | settingsFile error => "cannot read " ++ Settings.fileName ++ ": " ++ error.message
  | settings error => error.message
  | snapshotFile error => "snapshot I/O error: " ++ error.message
  | snapshot .malformed => "malformed snapshot"
  | snapshot (.inconsistent detail) => "inconsistent snapshot: " ++ detail.message
  | refused (.lookup error) => error.message
  | refused (.fault fault) => fault.message

def exitCode : Failure → Nat
  | usage .helpWanted | usage .versionWanted => 0
  | usage _ => 2
  | refused (.fault _) => 101
  | _ => 1

end Failure

namespace Command

def usageText : String :=
  "Usage: loupe [-q] [-v] [--config PATH] report SNAPSHOT [--detail] [--scope NAME]\n" ++
  "       loupe [-q] [-v] [--config PATH] exclude SNAPSHOT --scope NAME --expr ID\n" ++
  "             [--underline N | --line] [--include]"

def versionText : String := "loupe 0.1.0"

/-- The settings of a file that has to be there; in a directory, it has the usual name. -/
def settingsFrom (files : Files) (path : String) : Except Failure Settings := do
  let path := if files.isDirectory path then Files.join path Settings.fileName else path
  let text ← (files.read path).mapError .settingsFile
  (Settings.read text).mapError .settings

/-- The settings of the file that is given or, failing that, found. -/
def settings (files : Files) (config : Option String) : Except Failure Settings :=
  match config with
  | some path => settingsFrom files path
  | none =>
    if files.isFile Settings.fileName then settingsFrom files Settings.fileName else .ok .default

/-- The database that a snapshot file holds. -/
def load (files : Files) (path : String) : Except Failure Database := do
  let text ← (files.read path).mapError .snapshotFile
  (Snapshot.read text).mapError .snapshot

/-- Scores a database and sets an exclusion. -/
def exclusion (db : Database) (settings : Settings) (scope : String) (expr : ExprId)
    (underline : Option UInt32) (remove line : Bool) : Request (ExclusionOutcome × Database) := do
  let (_, engine, db) ← (Engine.new settings.scoring).scoreAll db
  let scope ← db.scopeByName scope
  match underline with
  | some n => db.setExclusionByUnderline engine.config scope expr n (!remove)
  | none => db.setExclusion engine.config scope expr (!remove) line

/-- A change with its sign. -/
def signedText (n : Int) : String :=
  match n with
  | .ofNat n => "+" ++ n.repr
  | .negSucc n => "-" ++ (n + 1).repr

/-- What is said of an exclusion; the counts are those of the first scope it touched. -/
def exclusionOutput (db : Database) (expr : ExprId) (remove : Bool) (o : ExclusionOutcome) :
    Checked Output := do
  let first ← entry o.scopes.toArray 0
  let s := (← db.scope first).stat
  return {
    stdout :=
      (if remove then "included " else "excluded ") ++ expr.text ++ ": comb_hit " ++
        signedText o.combHitDelta ++ ", comb_excluded " ++ signedText o.combExcludedDelta ++
        ", line_hit " ++ signedText o.lineHitDelta ++ " in " ++ o.scopes.length.repr ++
        " scope(s); comb now " ++ shareText s.combHit s.combTotal ++ "\n"
    stderr := if o.shadowed then "warning: an enclosing expression is already excluded\n" else "" }

/-- Prints the report on a snapshot. -/
def runReport (inv : Invocation) (snapshot : String) (detail : Bool) (scope : Option String) :
    Shell Output := do
  let settings ← .ask fun files => settings files inv.config
  let db ← .ask fun files => load files snapshot
  let reports ← .ask fun _ => (db.report settings scope detail).mapError .refused
  return ⟨if inv.quiet then "" else reportText reports, ""⟩

/-- Sets an exclusion in a snapshot file. -/
def saveExclusion (inv : Invocation) (snapshot scope : String) (expr : ExprId)
    (underline : Option UInt32) (remove line : Bool) : Shell (ExclusionOutcome × Database) := do
  let settings ← .ask fun files => settings files inv.config
  let db ← .ask fun files => load files snapshot
  let (o, db) ← .ask fun _ =>
    (exclusion db settings scope expr underline remove line).mapError .refused
  .update fun files => do
    let files ← (files.write snapshot (Snapshot.write db)).mapError .snapshotFile
    return ((o, db), files)

/-- Sets an exclusion in a snapshot file, and says what has changed. -/
def runExclude (inv : Invocation) (snapshot scope : String) (expr : ExprId)
    (underline : Option UInt32) (remove line : Bool) : Shell Output := do
  let (o, db) ← saveExclusion inv snapshot scope expr underline remove line
  .ask fun _ =>
    if inv.quiet then .ok ⟨"", ""⟩
    else (exclusionOutput db expr remove o).mapError fun fault => .refused (.fault fault)

/-- Carries out a command. -/
def execute (inv : Invocation) : Shell Output :=
  match inv.command with
  | .report snapshot detail scope => runReport inv snapshot detail scope
  | .exclude snapshot scope expr underline remove line =>
    runExclude inv snapshot scope expr underline remove line

/-- Carries out a command line. -/
def run (files : Files) (args : List String) : Run :=
  match parse args with
  | .ok inv => ⟨((execute inv).on files).2, ((execute inv).on files).1⟩
  | .error e => ⟨files, .error (.usage e)⟩

/-- Saving an exclusion, with the files passed on. -/
theorem saveExclusion_steps (files : Files) (inv : Invocation) (snapshot scope : String)
    (expr : ExprId) (underline : Option UInt32) (remove line : Bool) :
    (saveExclusion inv snapshot scope expr underline remove line).outcome files = (do
      let settings ← settings files inv.config
      let db ← load files snapshot
      let (o, db) ← (exclusion db settings scope expr underline remove line).mapError .refused
      let files ← (files.write snapshot (Snapshot.write db)).mapError .snapshotFile
      return ((o, db), files)) := by
  simp only [saveExclusion, Attempt.outcome_ask_bind, Attempt.outcome_update]

section Left

variable {files left : Files} {inv : Invocation} {snapshot : String} {failure : Failure}

/-- A report reads files, and writes none. -/
theorem left_of_runReport {detail : Bool} {scope : Option String} {result : Except Failure Output}
    (h : (runReport inv snapshot detail scope).on files = (result, left)) : left = files :=
  Attempt.left_of_ask_bind (fun _ h => Attempt.left_of_ask_bind (fun _ h =>
    Attempt.left_of_ask_bind (fun _ h => (Prod.mk.inj h).2.symm) h) h) h

/-- Files are written last, so that none was written if setting the exclusion fails. -/
theorem left_of_saveExclusion {scope : String} {expr : ExprId} {underline : Option UInt32}
    {remove line : Bool}
    (h : (saveExclusion inv snapshot scope expr underline remove line).on files =
      (.error failure, left)) : left = files :=
  Attempt.left_of_ask_bind (fun _ h => Attempt.left_of_ask_bind (fun _ h =>
    Attempt.left_of_ask_bind (fun _ h => Attempt.left_of_update h) h) h) h

end Left

end Command

end LogicCoverage
