import FolderCommands.Text.Lines

/-!
# Arguments

What the program is asked to do. Arguments are read in order, at first those of the program and
after the name of a subcommand those of the subcommand. A few settings may be given on both levels;
then the subcommand's counts. The first thing that stops the reading decides: a request for help or
for the version, or a fault.
-/

namespace FolderCommands.CommandLine

/-- Where the content is taken from. -/
inductive StoreKind where
  | rclone
  | localDirectory
deriving DecidableEq, Repr

/-- What is to be done. -/
inductive Subcommand where
  | run (store : StoreKind) (localRoot : Option String) (dryRun json : Bool)
  | validate (file : String)
  | users (store : StoreKind) (localRoot : Option String)
deriving DecidableEq, Repr

/-- The configuration that is used when none is named. -/
def defaultConfig : String :=
  "folio.toml"

/-- A complete request. -/
structure Invocation where
  config : String := defaultConfig
  profile : Option String := none
  mark : Option String := none
  verbose : Bool := false
  subcommand : Subcommand
deriving DecidableEq, Repr

/-- Why no request results. -/
inductive Refusal where
  | help
  | version
  | usage (problem : String)
deriving DecidableEq, Repr

/-- What an argument can set. -/
inductive Setting where
  | config
  | profile
  | mark
  | verbose
  | store
  | localRoot
  | dryRun
  | json
  | help
  | version
deriving DecidableEq, Repr

namespace Setting

/-- The long name of a setting. -/
def long : Setting → String
  | config => "config"
  | profile => "profile"
  | mark => "prefix"
  | verbose => "verbose"
  | store => "store"
  | localRoot => "local-root"
  | dryRun => "dry-run"
  | json => "json"
  | help => "help"
  | version => "version"

/-- The letter that stands for a setting. -/
def letter? : Setting → Option Char
  | config => some 'c'
  | profile => some 'p'
  | verbose => some 'v'
  | help => some 'h'
  | version => some 'V'
  | _ => none

/-- Whether a value follows. -/
def takesValue : Setting → Bool
  | config | profile | mark | store | localRoot => true
  | _ => false

/-- Whether a value may be given for a setting. -/
def accepts : Setting → String → Bool
  | config, value | localRoot, value => value ≠ ""
  | store, value => value == "rclone" || value == "local"
  | _, _ => true

end Setting

/-- Where arguments belong. -/
inductive Level where
  | program
  | run
  | validate
  | users
deriving DecidableEq, Repr

namespace Level

/-- The settings that can be given on a level. -/
def settings (level : Level) : List Setting :=
  let shared := [.config, .profile, .mark, .verbose, .help]
  match level with
  | program => .version :: shared
  | run => [.store, .localRoot, .dryRun, .json] ++ shared
  | validate => shared
  | users => [.store, .localRoot] ++ shared

/-- The subcommand of that name. -/
def ofName? : String → Option Level
  | "run" => some run
  | "validate" => some validate
  | "users" => some users
  | _ => none

end Level

/-- What stands last and is not yet complete or checked. -/
inductive Pending where
  | nothing
  /-- A setting the value of which is to follow. -/
  | awaiting (setting : Setting)
  | value (setting : Setting) (value : String)
  | file (path : String)
deriving DecidableEq, Repr

/-- What has been given on a level. -/
structure Given where
  settings : List (Setting × String) := []
  file : Option String := none
  pending : Pending := .nothing
deriving DecidableEq, Repr

/-- Whether a value must follow. -/
def Pending.isAwaiting : Pending → Bool
  | awaiting _ => true
  | _ => false

abbrev Reading := Except Refusal

namespace Given

/-- The value of a setting. -/
def value? (g : Given) (setting : Setting) : Option String :=
  g.settings.lookup setting

def has (g : Given) (setting : Setting) : Bool :=
  (g.value? setting).isSome

/-- Whether a file has been named. -/
def hasFile (g : Given) : Bool :=
  match g.pending with
  | .file _ => true
  | _ => g.file.isSome

/-- Takes a value for a setting, which must not have one. -/
def add (g : Given) (setting : Setting) (value : String) : Reading Given :=
  if g.has setting then
    .error (.usage ("the argument '--" ++ setting.long ++ "' cannot be used multiple times"))
  else if setting.accepts value then
    .ok { g with settings := g.settings ++ [(setting, value)], pending := .nothing }
  else
    .error (.usage ("invalid value '" ++ value ++ "' for '--" ++ setting.long ++ "'"))

/-- Completes what stands last. -/
def settle (g : Given) : Reading Given :=
  match g.pending with
  | .nothing => .ok g
  | .awaiting setting =>
    .error (.usage ("a value is required for '--" ++ setting.long ++ "' but none was supplied"))
  | .value setting value => g.add setting value
  | .file path =>
    if path = "" then .error (.usage "a value is required for '<FILE>' but none was supplied")
    else .ok { g with file := some path, pending := .nothing }

/-- Takes a setting, with the value that is attached to it if there is one. -/
def take (g : Given) (setting : Setting) (attached : Option String) : Reading Given :=
  match setting.takesValue, attached with
  | true, some value => do (← g.settle).add setting value
  | true, none => do
    let g ← g.settle
    .ok { g with pending := .awaiting setting }
  | false, some value =>
    .error (.usage ("unexpected value '" ++ value ++ "' for '--" ++ setting.long ++ "' found"))
  | false, none => do
    let g ← g.settle
    match setting with
    | .help => .error .help
    | .version => .error .version
    | setting => g.add setting ""

end Given

/-- The refusal of a request that does not say what is to be done. -/
def missingSubcommand : Refusal :=
  .usage "'folio' requires a subcommand but one was not provided"

/-- The refusal of an argument that has no place. -/
def unexpected (arg : String) : Refusal :=
  .usage ("unexpected argument '" ++ arg ++ "' found")

/-- Takes an argument that starts with two hyphens, which are left out. -/
def takeLong (level : Level) (g : Given) (body : List Char) : Reading Given :=
  let name := String.ofList (body.takeWhile (· ≠ '='))
  let attached := match body.dropWhile (· ≠ '=') with
    | [] => none
    | _ :: value => some (String.ofList value)
  match level.settings.find? fun setting ↦ setting.long == name with
  | some setting => g.take setting attached
  | none => .error (unexpected ("--" ++ name))

/-- Takes the letters of an argument that starts with one hyphen. -/
def takeLetters (level : Level) (g : Given) : List Char → Reading Given
  | [] => .ok g
  | c :: rest =>
    match level.settings.find? fun setting ↦ setting.letter? == some c with
    | none => .error (unexpected (String.ofList ['-', c]))
    | some setting =>
      if setting.takesValue then
        match rest with
        | [] => g.take setting none
        | '=' :: value | value => g.take setting (some (String.ofList value))
      else do takeLetters level (← g.take setting none) rest

/-- Takes an argument that is neither a setting nor a value of one. -/
def takePlain (level : Level) (g : Given) (arg : String) : Reading Given := do
  if level = .validate && !g.hasFile then
    let g ← g.settle
    .ok { g with pending := .file arg }
  else .error (unexpected arg)

/-- Takes one argument. After a lone double hyphen there are no settings. -/
def takeArgument (level : Level) (g : Given) (plainOnly : Bool) (arg : String) : Reading Given :=
  if plainOnly then takePlain level g arg
  else match arg.toList, g.pending with
    | '-' :: '-' :: body, _ => takeLong level g body
    | '-' :: c :: cs, _ => takeLetters level g (c :: cs)
    | _, .awaiting setting => .ok { g with pending := .value setting arg }
    | _, _ => takePlain level g arg

/-- Reads all arguments of a subcommand. -/
def readSubcommand (level : Level) (g : Given) (plainOnly : Bool) : List String → Reading Given
  | [] => g.settle
  | arg :: args => do
    if arg = "--" && !plainOnly then readSubcommand level g true args
    else readSubcommand level (← takeArgument level g plainOnly arg) plainOnly args

/-- The settings of a subcommand as one thing to do. -/
def Level.subcommand (level : Level) (g : Given) : Reading Subcommand :=
  let store := if g.value? .store = some "local" then StoreKind.localDirectory else .rclone
  match level with
  | run => .ok (.run store (g.value? .localRoot) (g.has .dryRun) (g.has .json))
  | users => .ok (.users store (g.value? .localRoot))
  | validate => match g.file with
    | some file => .ok (.validate file)
    | none => .error (.usage "the following required arguments were not provided: <FILE>")
  | program => .error missingSubcommand

/-- The request of what was given on the level of the program and on that of the subcommand. -/
def Invocation.ofGiven (program g : Given) (subcommand : Subcommand) : Invocation where
  config := ((g.value? .config).or (program.value? .config)).getD defaultConfig
  profile := (g.value? .profile).or (program.value? .profile)
  mark := (g.value? .mark).or (program.value? .mark)
  verbose := g.has .verbose || program.has .verbose
  subcommand := subcommand

/-- Whether a request for help names a subcommand or nothing. -/
def helpRefusal : List String → Refusal
  | [] => .help
  | [name] =>
    if name = "help" ∨ (Level.ofName? name).isSome then .help
    else .usage ("unrecognized subcommand '" ++ name ++ "'")
  | name :: _ => .usage ("unrecognized subcommand '" ++ name ++ "'")

/-- Reads arguments from the level of the program on. -/
def readProgram (g : Given) (plainOnly : Bool) : List String → Reading Invocation
  | [] => do
    let _ ← g.settle
    .error missingSubcommand
  | arg :: args =>
    if plainOnly then .error (unexpected arg)
    else if arg = "help" && !g.pending.isAwaiting then .error (helpRefusal args)
    else match if g.pending.isAwaiting then none else Level.ofName? arg with
      | some level => do
        let given ← readSubcommand level {} false args
        let subcommand ← level.subcommand given
        .ok (.ofGiven (← g.settle) given subcommand)
      | none => do
        if arg = "--" then readProgram g true args
        else readProgram (← takeArgument .program g false arg) false args

/-- Reads the arguments of the program. -/
def readArguments (args : List String) : Reading Invocation :=
  readProgram {} false args

end FolderCommands.CommandLine
