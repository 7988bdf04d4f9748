import FolderCommands.CommandLine.Arguments
import FolderCommands.Config.Loading
import FolderCommands.Run.Engine
import FolderCommands.Run.Log
import FolderCommands.Run.Saving
import FolderCommands.Store.Directory
import FolderCommands.Store.Rclone
import FolderCommands.Users.Loading

/-!
# The program

What the program prints and with which code it exits. A failure is told with its cause, if it has
one of its own.
-/

namespace FolderCommands.CommandLine

/-- Why the program cannot do what it was asked to. -/
inductive Failure where
  | error (error : Error)
  | system (fault : FileFault)
  | inContext (context : String) (fault : FileFault)
  | message (text : String)
deriving DecidableEq

namespace Failure

/-- What a failure is called. -/
def headline : Failure → String
  | error e => e.message
  | system fault => fault.message
  | inContext context _ => context
  | message text => text

/-- What is behind a failure. -/
def cause? : Failure → Option String
  | error (.io reason) | error (.yaml reason) | error (.json reason) => some reason
  | inContext _ fault => some fault.message
  | _ => none

/-- The text of a failure. -/
def text (failure : Failure) : String :=
  "Error: " ++ failure.headline ++
    match failure.cause? with
    | some cause => "\n\nCaused by:\n    " ++ cause
    | none => ""

end Failure

/-- What the program finds around it. -/
structure Surroundings (ρ : Type) where
  /-- The variable `USER`. -/
  user : Option String := none
  /-- The variable `FOLIO_USER_PREFIX`. -/
  mark : Option String := none
  occasion : Engine.Occasion
  /-- The time of the run in the name of its log. -/
  logStamp : String
  /-- The tool behind which content stores are reached. -/
  tool : Tool ρ
  /-- How deep folders may be nested in each other. -/
  nestingLimit : Nat

/-- What is left of a run of the program. -/
structure Outcome where
  code : Nat
  /-- The lines that are printed. -/
  output : List String := []
  /-- The lines that are told besides. -/
  log : List String := []
  complaint : String := ""
deriving DecidableEq, Repr

/-- A part of the program. -/
abbrev Program (ρ : Type) := ExceptT Failure (StateM (World ρ))

namespace Program

variable {ρ : Type}

/-- Acts on the world. -/
def act (action : Action ρ α) : Program ρ α :=
  fun w ↦
    let (result, w) := action w
    (result.mapError .error, w)

/-- Looks at the disk or changes it. -/
def update (f : Disk → Disk.Result (α × Disk)) (wrap : FileFault → Failure) : Program ρ α :=
  fun w ↦ match f w.disk with
    | .ok (a, disk) => (.ok a, { w with disk })
    | .error fault => (.error (wrap fault), w)

/-- Makes a directory and those around it. -/
def makeDirectories (path : String) (wrap : FileFault → Failure) : Program ρ Unit :=
  update (fun d ↦ (d.makeDirectories path).map ((), ·)) wrap

/-- Writes a file. -/
def writeFile (path content : String) (wrap : FileFault → Failure) : Program ρ Unit :=
  update (fun d ↦ (d.writeFile path (Text.encode content)).map ((), ·)) wrap

/-- Uses a scratch directory that is removed at the end, however that comes. -/
def withScratch (inside start : String) (use : String → Program ρ α) : Program ρ α := do
  let scratch ← update (·.makeScratch inside start) .system
  fun w ↦
    let (result, w) := use scratch.path w
    (result, { w with disk := w.disk.removeAt scratch.location })

end Program

open Program

variable {ρ : Type}

/-! ## What subcommands share -/

/-- The configuration and the profile that was asked for, or that of the user. -/
def loadProfile (s : Surroundings ρ) (i : Invocation) : Program ρ (Config × Profile) := do
  let config ← act (Config.load i.config)
  match i.profile.or s.user with
  | none => throw (.message "no profile given and USER is not set")
  | some name => return (config, ← act (.ofExcept (config.profile name)))

/-- The store that was asked for. -/
def chooseStore (s : Surroundings ρ) (config : Config) (kind : StoreKind)
    (localRoot : Option String) : Program ρ (Store ρ) :=
  match kind, localRoot with
  | .rclone, _ => return rcloneStore s.tool config.remote.name
  | .localDirectory, some root => return directoryStore root
  | .localDirectory, none => throw (.message "--store local requires --local-root")

/-- The registry of users, fetched through a scratch directory. -/
def loadUsers (store : Store ρ) (config : Config) (profile : Profile) : Program ρ Registry := do
  makeDirectories profile.tempDirectory .system
  withScratch profile.tempDirectory "users" fun scratch ↦
    act (Registry.load store config.usersFolder scratch)

/-! ## Running -/

/-- Makes the log of a run and gives its path. -/
def openLog (s : Surroundings ρ) (profile : Profile) : Program ρ String := do
  let dir := profile.logsDirectory
  let path := LocalPath.join dir ("folio-" ++ s.logStamp ++ ".log")
  makeDirectories dir (.inContext ("cannot create log directory " ++ dir))
  writeFile path "" (.inContext ("cannot create log file " ++ path))
  return path

/-- The settings of the engine; what is given as an argument counts most. -/
def engineOptions (s : Surroundings ρ) (i : Invocation) (config : Config) (profile : Profile)
    (dryRun : Bool) : EngineOptions where
  mark := (((i.mark.or s.mark).or config.run.commandPrefix)).getD ""
  scratchRoot := profile.tempDirectory
  supportDirectory := profile.supportDirectory
  outputs := profile.outputPaths
  dryRun := dryRun || config.run.dryRun

/-- Runs an engine and removes what it needed for itself. -/
def runEngine (s : Surroundings ρ) (e : Engine ρ) (top : RemotePath) :
    Program ρ (Option Report × RunState ρ) :=
  fun w ↦
    let (report, final) := e.run s.nestingLimit s.occasion { world := w, session := .start top }
    let (_, w) := e.close final.world
    (.ok (report, final), w)

/-- The lines for the reader of a report. -/
def reportLines (report : Report) (reportPath logPath : String) (recipients : List User) :
    List String :=
  [report.summary] ++
    report.failures.map (fun f ↦ "  FAILED " ++ f.folder ++ ": " ++ f.error) ++
    report.error.toList.map ("  ABORTED: " ++ ·) ++
    ["Report: " ++ reportPath, "Log: " ++ logPath] ++
    if recipients.isEmpty then []
    else "Log requested by:" ::
      recipients.map fun u ↦ "  " ++ u.name ++ " <" ++ u.emailAddress ++ ">"

/-- Walks the content from the configured top folder. -/
def run (s : Surroundings ρ) (i : Invocation) (kind : StoreKind) (localRoot : Option String)
    (dryRun json : Bool) : Program ρ Outcome := do
  let (config, profile) ← loadProfile s i
  let logPath ← openLog s profile
  let store ← chooseStore s config kind localRoot
  let users ← loadUsers store config profile
  let options := engineOptions s i config profile dryRun
  let engine ← act (Engine.create store users Delegate.idle options)
  let (report, final) ← runEngine s engine config.topFolder
  let log := final.journal.log i.verbose
  writeFile logPath (Text.joinWith "\n" (log ++ [""])) .system
  match report with
  | none => return { code := 134, log, complaint := "folders are nested too deep" }
  | some report =>
    let reportPath ← act (report.save profile.logsDirectory)
    let output := if json then [report.fileText]
      else reportLines report reportPath logPath final.session.recipients
    return { code := if report.isSuccess then 0 else 1, output, log }

/-! ## Validating -/

/-- The line for a diagnostic. -/
def diagnosticLine (d : Grammar.Diagnostic) : String :=
  let severity := match d.severity with
    | .error => "[ERROR] "
    | .warning => "[WARN] "
  severity ++ d.rule.name ++ ": " ++ d.display

/-- What is told of the text of a manifest that is known under a name. -/
def verdict (name source : String) : Outcome :=
  let validation := Grammar.validate source
  let lines := validation.diagnostics.map diagnosticLine
  if validation.hasErrors then { code := 1, output := lines }
  else match Manifest.parse source name with
    | .error e => { code := 1, output := lines ++ ["[ERROR] " ++ e.message] }
    | .ok manifest =>
      { code := 0
        output := lines ++
          ("Manifest is valid: command_set " ++ manifest.commandSet.name ++ " with " ++
            toString manifest.records.length ++ " command(s)") ::
          manifest.commandNames.map ("  " ++ ·) }

/-- Checks a manifest in a local file. -/
def validate (file : String) : Program ρ Outcome := do
  let source ← update (fun d ↦ (d.readText file).map (·, d)) (.inContext ("cannot read " ++ file))
  return verdict file source

/-! ## Listing users -/

/-- A text with blanks after it up to a width. -/
def padded (width : Nat) (s : String) : String :=
  s ++ String.ofList (List.replicate (width - s.length) ' ')

/-- The line for a user. -/
def userLine (u : User) : String :=
  let flags := (if u.isAdmin then ["admin"] else []) ++ if u.mailLogs then ["mail-logs"] else []
  padded 16 u.name ++ " " ++ padded 32 u.emailAddress ++ " " ++ Text.joinWith "," flags

/-- Lists the users. -/
def users (s : Surroundings ρ) (i : Invocation) (kind : StoreKind) (localRoot : Option String) :
    Program ρ Outcome := do
  let (config, profile) ← loadProfile s i
  let store ← chooseStore s config kind localRoot
  let registry ← loadUsers store config profile
  return { code := 0
           output := if registry.users.isEmpty then ["No users defined"]
             else registry.users.map userLine }

/-! ## Everything -/

/-- Does what was asked for. -/
def perform (s : Surroundings ρ) (i : Invocation) : Program ρ Outcome :=
  match i.subcommand with
  | .run kind localRoot dryRun json => run s i kind localRoot dryRun json
  | .validate file => validate file
  | .users kind localRoot => users s i kind localRoot

/-- How the program is used. -/
def usage : List String :=
  ["Manifest-driven folder-command interpreter", "",
    "Usage: folio [OPTIONS] <COMMAND>", "",
    "Commands:",
    "  run       Walk the content tree from the configured top folder",
    "  validate  Validate a local manifest file",
    "  users     List the operators known to the system",
    "  help      Print this message or the help of the given subcommand(s)", "",
    "Options:",
    "  -c, --config <CONFIG>    Path to the configuration file [default: folio.toml]",
    "  -p, --profile <PROFILE>  Configuration profile (default: $USER)",
    "      --prefix <PREFIX>    Prefix of the top folder's manifest name " ++
      "(default: $FOLIO_USER_PREFIX)",
    "  -v, --verbose            Enable verbose logging",
    "  -h, --help               Print help",
    "  -V, --version            Print version"]

/-- The name and the version of the program. -/
def version : String :=
  "folio 0.5.0"

/-- What comes of a request that was refused. -/
def Refusal.outcome : Refusal → Outcome
  | help => { code := 0, output := CommandLine.usage }
  | version => { code := 0, output := [CommandLine.version] }
  | usage problem =>
    { code := 2
      complaint := "error: " ++ problem ++ "\n\nFor more information, try '--help'." }

/-- Runs the program on arguments. -/
def respond (s : Surroundings ρ) (args : List String) (w : World ρ) : Outcome × World ρ :=
  match readArguments args with
  | .error refusal => (refusal.outcome, w)
  | .ok invocation => match perform s invocation w with
    | (.ok outcome, w) => (outcome, w)
    | (.error failure, w) => ({ code := 1, complaint := failure.text }, w)

end FolderCommands.CommandLine
