import FolderCommands.Manifest.Encoding

/-!
# Requests for content work

What the work on a story folder is given: the folder, where scratch files may go and where the
results belong.
-/

namespace FolderCommands

/-- The local directories for results. -/
structure OutputPaths where
  docx : String := ""
  site : String := ""
  image : String := ""
  gallery : String := ""
deriving DecidableEq, Repr

/-- A request to build the content of a story folder. -/
structure ContentRequest where
  folder : RemotePath
  scratchRoot : String
  outputs : OutputPaths
deriving DecidableEq

open Decode

namespace OutputPaths

/-- Output paths of which not every field has been read. -/
structure Draft where
  docx : Option String := none
  site : Option String := none
  image : Option String := none
  gallery : Option String := none

/-- The fields of output paths. -/
def fields : List (RecordField Draft) :=
  [.of "docx" false localPath (·.docx) fun a d ↦ { d with docx := some a },
    .of "site" false localPath (·.site) fun a d ↦ { d with site := some a },
    .of "image" false localPath (·.image) fun a d ↦ { d with image := some a },
    .of "gallery" false localPath (·.gallery) fun a d ↦ { d with gallery := some a }]

/-- Reads output paths. -/
def decode (f : Format) (d : Datum) : Result OutputPaths := do
  let r ← draft f "struct OutputPaths" fields {} d
  let docx ← require "docx" r.docx
  let site ← require "site" r.site
  let image ← require "image" r.image
  .ok ⟨docx, site, image, ← require "gallery" r.gallery⟩

/-- Writes output paths. -/
def encode (p : OutputPaths) : Datum :=
  .object [("docx", .string p.docx), ("site", .string p.site), ("image", .string p.image),
    ("gallery", .string p.gallery)]

end OutputPaths

namespace ContentRequest

/-- A request of which not every field has been read. -/
structure Draft where
  folder : Option RemotePath := none
  scratchRoot : Option String := none
  outputs : Option OutputPaths := none

/-- The fields of a request. -/
def fields (f : Format) : List (RecordField Draft) :=
  [.of "folder" false RemotePath.decode (·.folder) fun a d ↦ { d with folder := some a },
    .of "scratch_root" false localPath (·.scratchRoot) fun a d ↦ { d with scratchRoot := some a },
    .of "outputs" false (OutputPaths.decode f) (·.outputs) fun a d ↦ { d with outputs := some a }]

/-- Reads a request. -/
def decode (f : Format) (d : Datum) : Result ContentRequest := do
  let r ← draft f "struct ContentRequest" (fields f) {} d
  let folder ← require "folder" r.folder
  let scratchRoot ← require "scratch_root" r.scratchRoot
  .ok ⟨folder, scratchRoot, ← require "outputs" r.outputs⟩

/-- Writes a request. -/
def encode (r : ContentRequest) : Datum :=
  .object [("folder", r.folder.encode), ("scratch_root", .string r.scratchRoot),
    ("outputs", r.outputs.encode)]

end ContentRequest

end FolderCommands
