import LogicCoverage.Command.Run

/-!
# The command line

Shows a command the files it may ask for, runs it, and carries out what it leaves behind.
-/

namespace LogicCoverage.Program

/-- The location that a path means, as far as its names tell. -/
def locationOf (start : Location) (path : String) : Location :=
  (Files.parts path).foldl
    (fun place name =>
      if name = "" || name = "." then place
      else if name = ".." then place.dropLast
      else place ++ [name])
    (if Files.isAbsolute path then [] else start)

/-- The paths that a command may read. -/
def pathsOf (inv : Invocation) : List String :=
  let snapshot := match inv.command with
    | .report snapshot .. => snapshot
    | .exclude snapshot .. => snapshot
  let settings := match inv.config with
    | some path => [path, Files.join path Settings.fileName]
    | none => [Settings.fileName]
  snapshot :: settings

/-- Adds what a path leads to. -/
def look (files : Files) (path : String) : IO Files := do
  let place := locationOf files.workingDirectory path
  try
    if ← (← IO.FS.realPath path).isDir then
      return { files with directories := place :: files.directories }
    else
      return { files with contents := (place, ← IO.FS.readBinFile path) :: files.contents }
  catch _ => return files

/-- Says how a run has failed; help is no failure. -/
def complain (failure : Failure) : IO Unit :=
  match failure with
  | .usage .helpWanted => IO.println Command.usageText
  | .usage .versionWanted => IO.println Command.versionText
  | .usage _ => IO.eprintln Command.usageText
  | failure => IO.eprintln ("error: " ++ failure.message)

/-- Runs a command line; returns its exit code. -/
def runArguments (args : List String) : IO UInt32 := do
  let cwd := locationOf [] (← IO.currentDir).toString
  let paths := match Command.parse args with
    | .ok inv => pathsOf inv
    | .error _ => []
  let files ← paths.foldlM look ⟨cwd, [], []⟩
  let run := Command.run files args
  for (place, bytes) in run.files.contents do
    if (files.content? place).map (·.data) ≠ some bytes.data then
      IO.FS.writeBinFile ("/" ++ String.intercalate "/" place) bytes
  match run.result with
  | .ok output =>
    IO.print output.stdout
    IO.eprint output.stderr
    return 0
  | .error failure =>
    complain failure
    return UInt32.ofNat failure.exitCode

end LogicCoverage.Program

def main (args : List String) : IO UInt32 := LogicCoverage.Program.runArguments args
