/-
  The command line.

  * `Options.parse` reads what is asked for: to build or only to verify a package.
  * `Session.run` does it.  It ends with a text on the standard output, with a status and a
    message, or with a failure that is not reported.
-/
import UberPackage.Build
import UberPackage.CommandLine.Arguments
import UberPackage.Journal.Logger

namespace UberPackage.CommandLine

/-- What to do with a package. -/
inductive Command where
  | build | verify
deriving DecidableEq, Inhabited, Repr

/-- The name of a command. -/
def Command.name : Command → Text
  | build => "build"
  | verify => "verify"

/-- What is asked for. -/
structure Options where
  command : Command
  /-- The directory of the package. -/
  path : Text := "."
  /-- The file of settings, or its directory. -/
  config : Option Text := none
  verbose : Bool := false
  quiet : Bool := false
  logFile : Option Text := none
deriving DecidableEq, Inhabited, Repr

/-! ## Forms -/

def helpFlag : Flag := { names := ["-h", "--help"], wish := .help }

def verboseFlag : Flag := { names := ["-v", "--verbose"], wish := .verbose }

/-- Lines as a text. -/
def lines (ls : List Text) : Text := ls.flatMap (· ++ "\n")

/-- How the program is used. -/
def mainUsage : List Text :=
  ["usage: ubergen [-h] [-v] [--config CONFIG] [-q] [--log-file LOG_FILE]",
    "               \x7bbuild,verify\x7d ..."]

/-- What the parts of the program's arguments mean. -/
def mainHelp : List Text :=
  ["",
    "Assemble jsii library packages into a single uber-package.",
    "",
    "positional arguments:",
    "  \x7bbuild,verify\x7d",
    "    build              Verify dependencies and assemble the merged source",
    "                       tree.",
    "    verify             Only check (and fix) the uber-package and workspace",
    "                       manifests.",
    "",
    "options:",
    "  -h, --help           show this help message and exit",
    "  -v, --verbose        Increase log verbosity for troubleshooting.",
    "  --config CONFIG      Path to .ubergen.yml (defaults to the one in the",
    "                       package directory).",
    "  -q, --quiet          Only report corrections and failures.",
    "  --log-file LOG_FILE  Also write logs to this file."]

/-- The arguments of the program. -/
def mainForm : Form where
  program := Record.program
  flags :=
    [helpFlag, verboseFlag,
      { names := ["--config"], wish := .config, takesValue := true },
      { names := ["-q", "--quiet"], wish := .quiet },
      { names := ["--log-file"], wish := .logFile, takesValue := true }]
  operands := .commandAndRest
  usage := lines mainUsage
  help := lines (mainUsage ++ mainHelp)

/-- How a command is used. -/
def commandUsage (c : Command) : Text :=
  "usage: ubergen " ++ c.name ++ " [-h] [-v] [path]"

/-- The arguments of a command. -/
def commandForm (c : Command) : Form where
  program := Record.program ++ " " ++ c.name
  flags := [helpFlag, verboseFlag]
  operands := .atMostOne
  usage := lines [commandUsage c]
  help := lines
    [commandUsage c,
      "",
      "positional arguments:",
      "  path           Path to the uber-package directory (defaults to current",
      "                 directory).",
      "",
      "options:",
      "  -h, --help     show this help message and exit",
      "  -v, --verbose  Increase log verbosity for troubleshooting."]

/-! ## Options -/

/-- The value of the last wish of a kind. -/
def Reading.value? (r : Reading) (w : Wish) : Option Text :=
  (r.wishes.reverse.find? fun x => x.1 == w).map (·.2)

/-- The command with a name. -/
def commandNamed (name : Text) : Except Stop Command :=
  if name = Command.build.name then .ok .build
  else if name = Command.verify.name then .ok .verify
  else
    .error (mainForm.mistake ("argument command: invalid choice: " ++ name.inspect ++
      " (choose from 'build', 'verify')"))

/-- The path among the operands of a command; a separator before it does not count. -/
def pathOperand (operands : Option (List Text)) : Text :=
  (((operands.getD []).erase "--").head?).getD "."

namespace Options

/-- Reads what is asked for. -/
def parse (args : List Text) : Except Stop Options := do
  let r ← mainForm.read args
  match r.operands with
  | none | some [] => .error (mainForm.mistake "the following arguments are required: command")
  | some (name :: rest) =>
    let c ← commandNamed name
    let s ← (commandForm c).read rest
    match r.extras ++ s.extras with
    | [] =>
      return {
        command := c
        path := pathOperand s.operands
        config := r.value? .config
        verbose := (r.value? .verbose).isSome || (s.value? .verbose).isSome
        quiet := (r.value? .quiet).isSome
        logFile := r.value? .logFile
      }
    | extras =>
      .error (mainForm.mistake ("unrecognized arguments: " ++ Text.join " " extras))

/-- Where the journal goes. -/
def setup (o : Options) : Setup where
  verbose := o.verbose
  quiet := o.quiet
  logFile := o.logFile.map Path.ofText

end Options

/-! ## Sessions -/

/-- How a run of the program ends.  The texts are those that the console is given; whether it can
show them is not looked at. -/
inductive Ending where
  | done (output : Text)
  | exit (status : Nat) (output message : Text)
  /-- A failure that is not reported. -/
  | escape (f : Failure)
deriving Inhabited

/-- The end of a session, with the world, and the receivers of its journal. -/
structure Session where
  ending : Ending
  world : World
  sinks : Sinks
deriving Inhabited

/-- The end of a run that stops early. -/
def Stop.ending : Stop → Ending
  | .help text => .exit 0 text []
  | .mistake usage program message =>
    .exit 2 [] (usage ++ program ++ ": error: " ++ message ++ "\n")

/-- Opens the file of the journal, which is made if it is missing. -/
def openLog (file : Path) : Act Unit := do
  Act.change (·.makeDirectories file.parent)
  let path := (← get).disk.resolve file
  match ← Act.ask fun d => (some <$> d.stat path).tryCatch fun _ => .ok none with
  | some (.file _) => pure ()
  | some .dir => throw (.file (.refused .isDirectory path.text))
  | none => Act.change fun d => d.outcome (d.create path)

/-- A path as the user sees it: below the working directory, or else the whole. -/
def shown (cwd : Place) (p : Path) : Text := ((p.below? ⟨.slash, cwd⟩).getD p).text

/-- The text of a run that succeeds. -/
def perform (c : Command) (s : Settings) : Act Text := do
  match c with
  | .build =>
    let built ← Build.run s
    let cwd := (← get).disk.cwd
    return "Assembled " ++ Text.ofNat built.libraries.length ++ " libraries into " ++
      shown cwd built.outputRoot ++ "\n"
  | .verify =>
    let verified ← Build.verify s
    return "Dependencies are consistent for " ++ Text.ofNat verified.libraries.length ++
      " libraries\n"

/-- The record of a failure that ends a run. -/
def failureRecord : Record := ⟨.error, some "cli", "An error occurred", true⟩

/-- A message on a line of its own. -/
def messageOf (f : Failure) : Text := f.message ++ "\n"

/-- The end of a run whose settings cannot be had. -/
def endWithoutSettings (f : Failure) : Ending :=
  match f with
  | .settings g => if Failure.isSettingsFault g then .exit 1 [] (messageOf f) else .escape f
  | f => .escape f

/-- The end of a command, and the records of it. -/
def endOfCommand (c : Command) : Except Failure Text → Ending × List Record
  | .ok output => (.done output, [])
  | .error .corrected => (.exit 1 [] (messageOf .corrected), [])
  | .error f =>
    if f.isReported then
      (.exit 1 [] (Record.program ++ " " ++ c.name ++ " failed: " ++ messageOf f), [failureRecord])
    else (.escape f, [])

/-- Loads the settings and runs a command, to its end. -/
def attempt (o : Options) (homes : Homes := {}) : Act Ending := do
  match ← Act.outcome (Settings.load (Path.ofText (o.config.getD o.path)) homes) with
  | .error f => return endWithoutSettings f
  | .ok s =>
    let (ending, records) := endOfCommand o.command (← Act.outcome (perform o.command s))
    Act.records records
    return ending

/-- Does what is asked for. -/
def Session.perform (o : Options) (w : World) (homes : Homes := {}) : Session :=
  let setup := o.setup
  let sinks := ({} : Sinks).configure setup
  let start : Act Unit :=
    match setup.logFile with
    | some file => openLog file
    | none => pure ()
  let (result, w) := (do start; attempt o homes : Act Ending).runIn w
  match result with
  | .ok ending => ⟨ending, w, sinks⟩
  | .error f => ⟨.escape f, w, sinks⟩

/-- Runs the program with arguments. -/
def Session.run (args : List Text) (w : World) (homes : Homes := {}) : Session :=
  match Options.parse args with
  | .error stop => ⟨stop.ending, w, {}⟩
  | .ok o => Session.perform o w homes

end UberPackage.CommandLine
