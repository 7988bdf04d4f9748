import FolderCommands.Run.Request
import FolderCommands.Toml.Document

/-!
# Configuration

Where the content is, how to run, and the local directories of each operator.
-/

namespace FolderCommands

/-- Where the content and the users document are. -/
structure RemoteConfig where
  /-- The name under which the remote tool knows the content store. -/
  name : String := "sst_store"
  topFolder : String
  usersFolder : String
deriving DecidableEq, Repr

/-- How to run. -/
structure RunConfig where
  commandPrefix : Option String := none
  dryRun : Bool := false
deriving DecidableEq, Repr

/-- The local directories of an operator. -/
structure Profile where
  tempDirectory : String
  logsDirectory : String
  siteDirectory : String
  supportDirectory : String
  docxDirectory : String
  imageDirectory : String
  galleryDirectory : String
deriving DecidableEq, Repr

/-- A configuration; its profiles are in the order of their names. -/
structure Config where
  remote : RemoteConfig
  run : RunConfig := {}
  profiles : List (String × Profile) := []
deriving DecidableEq, Repr

namespace Profile

/-- Where the results of an operator go. -/
def outputPaths (p : Profile) : OutputPaths :=
  ⟨p.docxDirectory, p.siteDirectory, p.imageDirectory, p.galleryDirectory⟩

end Profile

namespace Config

/-- The profile of that name. -/
def profile (c : Config) (name : String) : Except Error Profile :=
  match c.profiles.lookup name with
  | some p => .ok p
  | none => .error (.config ("no profile named '" ++ name ++ "'"))

/-- The folder where runs start. -/
def topFolder (c : Config) : RemotePath :=
  .ofText c.remote.topFolder

/-- The folder of the users document. -/
def usersFolder (c : Config) : RemotePath :=
  .ofText c.remote.usersFolder

end Config

open Decode

namespace RemoteConfig

structure Draft where
  name : Option String := none
  topFolder : Option String := none
  usersFolder : Option String := none

/-- The fields of a place of content. -/
def fields : List (RecordField Draft) :=
  [.of "name" true Decode.text (·.name) fun a d ↦ { d with name := some a },
    .of "top_folder" false Decode.text (·.topFolder) fun a d ↦ { d with topFolder := some a },
    .of "users_folder" false Decode.text (·.usersFolder)
      fun a d ↦ { d with usersFolder := some a }]

/-- Reads a place of content. -/
def decode (f : Format) (d : Datum) : Result RemoteConfig := do
  let r ← draft f "struct RemoteConfig" fields {} d
  let topFolder ← require "top_folder" r.topFolder
  let usersFolder ← require "users_folder" r.usersFolder
  .ok { name := r.name.getD "sst_store", topFolder, usersFolder }

/-- Writes a place of content. -/
def encode (c : RemoteConfig) : Datum :=
  .object [("name", .string c.name), ("top_folder", .string c.topFolder),
    ("users_folder", .string c.usersFolder)]

end RemoteConfig

namespace RunConfig

structure Draft where
  commandPrefix : Option (Option String) := none
  dryRun : Option Bool := none

/-- The fields of how to run. -/
def fields : List (RecordField Draft) :=
  [.of "command_prefix" true (optional Decode.text) (·.commandPrefix)
      fun a d ↦ { d with commandPrefix := some a },
    .of "dry_run" true flag (·.dryRun) fun a d ↦ { d with dryRun := some a }]

/-- Reads how to run. -/
def decode (f : Format) (d : Datum) : Result RunConfig := do
  let r ← draft f "struct RunConfig" fields {} d
  .ok ⟨r.commandPrefix.getD none, r.dryRun.getD false⟩

/-- Writes how to run. -/
def encode (c : RunConfig) : Datum :=
  .object [("command_prefix", .ofOption c.commandPrefix), ("dry_run", .bool c.dryRun)]

end RunConfig

namespace Profile

structure Draft where
  temp : Option String := none
  logs : Option String := none
  site : Option String := none
  support : Option String := none
  docx : Option String := none
  image : Option String := none
  gallery : Option String := none

/-- The fields of a profile. -/
def fields : List (RecordField Draft) :=
  [.of "temp_directory" false localPath (·.temp) fun a d ↦ { d with temp := some a },
    .of "logs_directory" false localPath (·.logs) fun a d ↦ { d with logs := some a },
    .of "site_directory" false localPath (·.site) fun a d ↦ { d with site := some a },
    .of "support_directory" false localPath (·.support) fun a d ↦ { d with support := some a },
    .of "docx_directory" false localPath (·.docx) fun a d ↦ { d with docx := some a },
    .of "image_directory" false localPath (·.image) fun a d ↦ { d with image := some a },
    .of "gallery_directory" false localPath (·.gallery) fun a d ↦ { d with gallery := some a }]

/-- Reads a profile. -/
def decode (f : Format) (d : Datum) : Result Profile := do
  let r ← draft f "struct Profile" fields {} d
  let temp ← require "temp_directory" r.temp
  let logs ← require "logs_directory" r.logs
  let site ← require "site_directory" r.site
  let support ← require "support_directory" r.support
  let docx ← require "docx_directory" r.docx
  let image ← require "image_directory" r.image
  .ok ⟨temp, logs, site, support, docx, image, ← require "gallery_directory" r.gallery⟩

/-- Writes a profile. -/
def encode (p : Profile) : Datum :=
  .object [("temp_directory", .string p.tempDirectory),
    ("logs_directory", .string p.logsDirectory), ("site_directory", .string p.siteDirectory),
    ("support_directory", .string p.supportDirectory),
    ("docx_directory", .string p.docxDirectory), ("image_directory", .string p.imageDirectory),
    ("gallery_directory", .string p.galleryDirectory)]

end Profile

namespace Config

structure Draft where
  remote : Option RemoteConfig := none
  run : Option RunConfig := none
  profiles : Option (List (String × Profile)) := none

/-- The profiles in the order of their names. -/
def sortProfiles (profiles : List (String × Profile)) : List (String × Profile) :=
  profiles.mergeSort fun a b ↦ a.1 ≤ b.1

/-- The fields of a configuration. -/
def fields (f : Format) : List (RecordField Draft) :=
  [.of "remote" false (RemoteConfig.decode f) (·.remote) fun a d ↦ { d with remote := some a },
    .of "run" true (RunConfig.decode f) (·.run) fun a d ↦ { d with run := some a },
    .of "profiles" true (table (Profile.decode f)) (·.profiles)
      fun a d ↦ { d with profiles := some a }]

/-- Reads a configuration. -/
def decode (f : Format) (d : Datum) : Result Config := do
  let r ← draft f "struct FolioConfig" (fields f) {} d
  let remote ← require "remote" r.remote
  .ok ⟨remote, r.run.getD {}, sortProfiles (r.profiles.getD [])⟩

/-- Reads a configuration document. -/
def parse (source : String) : Except Error Config :=
  match Toml.parse source with
  | none => .error (.config "TOML parse error: malformed document")
  | some d =>
    match decode .toml d with
    | .ok c => .ok c
    | .error fault => .error (.config ("TOML parse error: " ++ fault.message .toml))

/-- Writes a configuration. -/
def encode (c : Config) : Datum :=
  .object [("remote", c.remote.encode), ("run", c.run.encode),
    ("profiles", .object (c.profiles.map fun (name, p) ↦ (name, p.encode)))]

end Config

end FolderCommands
