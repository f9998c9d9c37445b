import LogicCoverage.Command.ExprIdText

/-!
# Command lines

A command line has options at two levels: those in front of the name of a subcommand, and those
behind it. A value waits until the next argument shows that it is complete; only then is it checked
and taken.
-/

namespace LogicCoverage

/-- What the program is asked to do. -/
inductive Command where
  | report (snapshot : String) (detail : Bool) (scope : Option String)
  | exclude (snapshot scope : String) (expr : ExprId) (underline : Option UInt32)
      (remove line : Bool)
deriving DecidableEq

structure Invocation where
  quiet : Bool
  verbose : Bool
  config : Option String
  command : Command
deriving DecidableEq

/-- Why a command line is not carried out. -/
inductive UsageError where
  | helpWanted
  | versionWanted
  /-- No argument at all. -/
  | nothingAsked
  | missingSubcommand
  | unknownSubcommand
  | unknownArgument
  | missingArgument
  /-- An option is repeated, or excludes another. -/
  | conflict
  /-- An option has no value, or an empty path. -/
  | missingValue
  /-- A flag is given a value. -/
  | unexpectedValue
  /-- A value is not of its kind. -/
  | badValue
deriving DecidableEq

namespace Command

/-- Everything that can be given: flags, options with a value, and the snapshot's path. -/
inductive Parameter where
  | quiet | verbose | config | help | version
  | detail | scope | expr | underline | remove | line
  | snapshot
deriving DecidableEq

/-- The places where parameters can be given. -/
inductive Level where
  | top | report | exclude
deriving DecidableEq

namespace Parameter

def takesValue : Parameter → Bool
  | config | scope | expr | underline | snapshot => true
  | _ => false

/-- Parameters that can be given at every level. -/
def ofGlobalName? : String → Option Parameter
  | "quiet" => some quiet
  | "verbose" => some verbose
  | "config" => some config
  | "help" => some help
  | _ => none

/-- The parameter with that long name. -/
def ofName? : Level → String → Option Parameter
  | .top, "version" => some version
  | .report, "detail" => some detail
  | .report, "scope" => some scope
  | .exclude, "scope" => some scope
  | .exclude, "expr" => some expr
  | .exclude, "underline" => some underline
  | .exclude, "include" => some remove
  | .exclude, "line" => some line
  | _, name => ofGlobalName? name

/-- The flag with that letter. -/
def ofLetter? : Level → Char → Option Parameter
  | _, 'q' => some quiet
  | _, 'v' => some verbose
  | _, 'h' => some help
  | .top, 'V' => some version
  | _, _ => none

/-- What is wrong with a value. -/
def objection? : Parameter → String → Option UsageError
  | config, v => if v.isEmpty then some .missingValue else none
  | snapshot, v => if v.isEmpty then some .missingValue else none
  | expr, v => if (ExprId.ofText? v).isNone then some .badValue else none
  | underline, v => if (Decimal.signedUInt32? v).isNone then some .badValue else none
  | _, _ => none

end Parameter

/-- What has been read of one level. -/
structure Parsed where
  /-- What has been taken, with the value of what has one. -/
  taken : List (Parameter × String)
  /-- What still waits, and its value if that has been read. -/
  pending : Option (Parameter × Option String)
  /-- Only plain arguments follow. -/
  plain : Bool

namespace Parsed

def start : Parsed := ⟨[], none, false⟩

variable (s : Parsed)

def has (p : Parameter) : Bool := (s.taken.lookup p).isSome

def value? (p : Parameter) : Option String := s.taken.lookup p

/-- Takes a parameter, once. -/
def take (p : Parameter) (value : String) : Except UsageError Parsed :=
  if s.has p then .error .conflict
  else
    match p.objection? value with
    | some e => .error e
    | none => .ok { s with taken := (p, value) :: s.taken }

/-- Takes what waits. -/
def settle : Except UsageError Parsed :=
  match s.pending with
  | none => .ok s
  | some (_, none) => .error .missingValue
  | some (p, some value) => { s with pending := none }.take p value

/-- Takes a flag. -/
def takeFlag (p : Parameter) : Except UsageError Parsed := do
  let s ← s.settle
  match p with
  | .help => .error .helpWanted
  | .version => .error .versionWanted
  | p => s.take p ""

/-- Takes flags given by their letters. -/
def takeLetters (level : Level) : Parsed → List Char → Except UsageError Parsed
  | s, [] => .ok s
  | s, c :: rest =>
    match Parameter.ofLetter? level c with
    | none => .error .unknownArgument
    | some p => do takeLetters level (← s.takeFlag p) rest

/-- Takes what a long name gives, which may have a value attached. -/
def takeName (level : Level) (name : String) (value : Option String) : Except UsageError Parsed :=
  match Parameter.ofName? level name, value with
  | none, _ => .error .unknownArgument
  | some p, value =>
    if p.takesValue then do
      let s ← s.settle
      match value with
      | some v => s.take p v
      | none => .ok { s with pending := some (p, none) }
    else if value.isSome then .error .unexpectedValue
    else s.takeFlag p

/-- An option waits for its value. -/
def awaits : Option Parameter :=
  match s.pending with
  | some (p, none) => if s.plain then none else some p
  | _ => none

end Parsed

/-- A long option's name, and its value if one is attached. -/
def splitName (cs : List Char) : String × Option String :=
  let name := String.ofList (cs.takeWhile (· ≠ '='))
  match cs.dropWhile (· ≠ '=') with
  | _ :: value => (name, some (String.ofList value))
  | [] => (name, none)

/-- What an argument is at its place. -/
inductive Role where
  /-- From here on all arguments are plain. -/
  | escape
  | long (name : String) (value : Option String)
  | short (letters : List Char)
  /-- A value, or a plain argument. -/
  | plain

def Role.of (arg : String) : Role :=
  match arg.toList with
  | ['-', '-'] => escape
  | '-' :: '-' :: rest => let (name, value) := splitName rest; .long name value
  | '-' :: c :: rest => .short (c :: rest)
  | _ => plain

/-- Takes one argument that is no subcommand; `none` if it is plain and belongs to no option. -/
def Parsed.argument (s : Parsed) (level : Level) (arg : String) :
    Except UsageError (Option Parsed) :=
  if s.plain then .ok none
  else
    match Role.of arg, s.awaits with
    | .escape, _ => .ok (some { s with plain := true })
    | .long name value, _ => do return some (← s.takeName level name value)
    | .short letters, _ => do return some (← s.takeLetters level letters)
    | .plain, some p => .ok (some { s with pending := some (p, some arg) })
    | .plain, none => .ok none

/-- Takes the arguments of a subcommand. The first plain one is the snapshot's path; a second one
belongs nowhere. -/
def subArguments (level : Level) : Parsed → List String → Except UsageError Parsed
  | s, [] => s.settle
  | s, arg :: rest => do
    match ← s.argument level arg with
    | some s => subArguments level s rest
    | none =>
      let given := s.has .snapshot || s.pending.any fun w => w.1 = .snapshot
      if given then .error .unknownArgument
      else
        let s ← s.settle
        subArguments level { s with pending := some (.snapshot, some arg) } rest

/-- A parameter that has to be given. -/
def required (s : Parsed) (p : Parameter) : Except UsageError String :=
  match s.value? p with
  | some v => .ok v
  | none => .error .missingArgument

/-- The options that all commands share. -/
def invocation (top sub : Parsed) (command : Command) : Invocation where
  quiet := top.has .quiet || sub.has .quiet
  verbose := top.has .verbose || sub.has .verbose
  config := sub.value? .config <|> top.value? .config
  command

def parseReport (args : List String) : Except UsageError (Parsed × Command) := do
  let s ← subArguments .report .start args
  return (s, .report (← required s .snapshot) (s.has .detail) (s.value? .scope))

def parseExclude (args : List String) : Except UsageError (Parsed × Command) := do
  let s ← subArguments .exclude .start args
  if s.has .underline && s.has .line then throw .conflict
  let snapshot ← required s .snapshot
  let scope ← required s .scope
  match ExprId.ofText? (← required s .expr) with
  | none => throw .badValue
  | some expr =>
    let underline := (s.value? .underline).bind Decimal.signedUInt32?
    return (s, .exclude snapshot scope expr underline (s.has .remove) (s.has .line))

/-- The help asked for by naming subcommands. -/
def parseHelp : List String → UsageError
  | [] => .helpWanted
  | [name] =>
    if name = "report" || name = "exclude" || name = "help" then .helpWanted else .unknownSubcommand
  | _ => .unknownSubcommand

/-- The plain argument is no subcommand. -/
def strayArgument (plain : Bool) (arg : String) : UsageError :=
  if plain && (arg = "report" || arg = "exclude" || arg = "help") then .unknownArgument
  else .unknownSubcommand

/-- Takes the arguments in front of the subcommand, and then the subcommand. -/
def arguments : Parsed → List String → Except UsageError Invocation
  | s, [] => do
    let s ← s.settle
    .error (if s.taken.isEmpty then .nothingAsked else .missingSubcommand)
  | s, arg :: rest => do
    if !s.plain && s.awaits.isNone && (arg = "report" || arg = "exclude" || arg = "help") then
      let (sub, command) ←
        if arg = "report" then parseReport rest
        else if arg = "exclude" then parseExclude rest
        else .error (parseHelp rest)
      let s ← s.settle
      return invocation s sub command
    else
      match ← s.argument .top arg with
      | some s => arguments s rest
      | none => .error (strayArgument s.plain arg)

/-- What a command line asks for. -/
def parse (args : List String) : Except UsageError Invocation := arguments .start args

end Command

end LogicCoverage
