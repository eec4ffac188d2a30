import LayeredConfig.Loader

/-!
# The command line

The program resolves a configuration and writes it as JSON. What it does is a function of its
arguments, of the file system, and of the engine for patterns.
-/

namespace LayeredConfig.CommandLine

/-- What the arguments ask for. -/
structure Options where
  /-- The path of the configuration. -/
  config : String
  /-- The path of the schema, if the configuration is to be verified. -/
  schema : Option String := none
  /-- Whether the JSON is indented. -/
  pretty : Bool := false
deriving DecidableEq, Repr

/-- What the program leaves behind. -/
structure Outcome where
  exitCode : Nat
  stdout : String := ""
  stderr : String := ""
deriving DecidableEq, Repr

/-- The arguments as far as they have been read. -/
structure Args where
  config : Option String := none
  schema : Option String := none
  compact : Bool := false
  pretty : Bool := false
deriving DecidableEq, Repr

/-- Whether an argument asks for more log output, as `-v` and `-vv` do. -/
def isVerbosity (arg : String) : Bool :=
  arg == "--verbose" ||
    match arg.toList with
    | '-' :: 'v' :: more => more.all (· == 'v')
    | _ => false

/-- Takes an argument as the path of the configuration. -/
def Args.takeConfig (p : Args) (arg : String) : Option Args :=
  if p.config.isNone && !arg.isEmpty then some { p with config := some arg } else none

/-- Takes an argument as the path of the schema. -/
def Args.takeSchema (p : Args) (arg : String) : Option Args :=
  if p.schema.isNone && !arg.isEmpty then some { p with schema := some arg } else none

/-- Reads the arguments. After `--`, all of them are paths. -/
def readArgs (p : Args) : List String → Option Args
  | [] => some p
  | "--" :: args => args.foldlM Args.takeConfig p
  | "--schema" :: arg :: args => (p.takeSchema arg).bind (readArgs · args)
  | "--json" :: args => readArgs { p with compact := true } args
  | "--pretty" :: args => readArgs { p with pretty := true } args
  | arg :: args =>
    if isVerbosity arg then readArgs p args
    else if "--schema=".toList.isPrefixOf arg.toList then
      (p.takeSchema (String.ofList (arg.toList.drop 9))).bind (readArgs · args)
    else if arg.toList.head? == some '-' && arg.length > 1 then none
    else (p.takeConfig arg).bind (readArgs · args)

/-- What the arguments ask for, if they make sense: there is one configuration, and not two ways
to write it. -/
def Options.ofArgs? (args : List String) : Option Options := do
  let p ← readArgs {} args
  let config ← p.config
  if p.compact && p.pretty then none
  else some { config, schema := p.schema, pretty := p.pretty }

/-- The hint for arguments that make no sense. -/
def usage : String :=
  "Usage: [--schema <SCHEMA>] [--json | --pretty] [-v]... <CONFIG>\n"

/-- What is reported about a failure: the diagnostic, and once more the refused write if that is
the cause. -/
def report (config : String) (e : LoadError) : String :=
  let cause := match e with
    | .parse (.writeProtection cause _) => s!": {cause.message}"
    | _ => ""
  s!"Error: Failed to load {config}: {e.message}{cause}\n"

/-- The exit code of a failure: a configuration that a schema refuses is told apart from one that
cannot be read. -/
def exitCodeOf : LoadError → Nat
  | .verification _ => 2
  | .parse _ => 1

/-- Loads a configuration and writes it. -/
def runWith (fs : FileSystem) (engine : PatternEngine) (options : Options) : Outcome :=
  match load fs engine (.builtin engine) options.config options.schema with
  | .ok map =>
    let json := map.toJson
    { exitCode := 0, stdout := (if options.pretty then json.pretty 0 else json.compact) ++ "\n" }
  | .error e => { exitCode := exitCodeOf e, stderr := report options.config e }

/-- Runs the program. -/
def run (fs : FileSystem) (engine : PatternEngine) (args : List String) : Outcome :=
  match Options.ofArgs? args with
  | some options => runWith fs engine options
  | none => { exitCode := 2, stderr := usage }

end LayeredConfig.CommandLine
