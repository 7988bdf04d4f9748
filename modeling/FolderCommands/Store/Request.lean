import FolderCommands.Store.Basic

/-!
# Requests to stores

Actions in the course of which a content store is asked for something. The requests are noted in
order, whether the store answers or fails, so that a store cannot hide what it was asked.
-/

namespace FolderCommands

/-- What a store can be asked. -/
inductive Request where
  | listFiles (dir : RemotePath)
  | listDirectories (dir : RemotePath)
  | downloadFile (dir : RemotePath) (name : String)
  | downloadDirectory (dir : RemotePath)
deriving DecidableEq

/-- The folder that a request names. -/
def Request.folder : Request → RemotePath
  | listFiles dir | listDirectories dir | downloadFile dir _ | downloadDirectory dir => dir

/-- The world and the requests made so far. -/
structure Inquired (ρ : Type) where
  world : World ρ
  requests : List Request := []

/-- What may ask a store, change the world and fail. -/
abbrev Inquiry (ρ : Type) := ExceptT Error (StateM (Inquired ρ))

namespace Inquiry

variable {ρ : Type}

/-- Acts on the world without a request. -/
def act (action : Action ρ α) : Inquiry ρ α :=
  fun s ↦
    let (result, world) := action s.world
    (result, { s with world })

/-- Acts on the world at a request. -/
def ask (request : Request) (action : Action ρ α) : Inquiry ρ α :=
  fun s ↦
    let (result, world) := action s.world
    (result, ⟨world, s.requests ++ [request]⟩)

/-- Fails if `x` has failed. -/
def ofExcept (x : Except Error α) : Inquiry ρ α :=
  fun s ↦ (x, s)

/-- Uses a directory of a fresh name that is removed at the end, however that comes. -/
def withScratch (inside start : String) (use : String → Inquiry ρ α) : Inquiry ρ α :=
  fun s ↦
    match s.world.disk.makeScratch inside start with
    | .error fault => (.error fault.toError, s)
    | .ok (scratch, disk) =>
      let (result, s) := use scratch.path { s with world := { s.world with disk } }
      (result, { s with world := { s.world with disk := s.world.disk.removeAt scratch.location } })

/-- Acts on the world and forgets the requests. -/
def toAction (inquiry : Inquiry ρ α) : Action ρ α :=
  fun w ↦
    let (result, s) := inquiry { world := w }
    (result, s.world)

end Inquiry

namespace Store

variable {ρ : Type} (store : Store ρ)

/-- Asks for the files of a folder. -/
def askFiles (dir : RemotePath) : Inquiry ρ (List String) :=
  .ask (.listFiles dir) (store.listFiles dir)

/-- Asks for the directories of a folder. -/
def askDirectories (dir : RemotePath) : Inquiry ρ (List String) :=
  .ask (.listDirectories dir) (store.listDirectories dir)

/-- Asks for a copy of a file. -/
def askFile (dir : RemotePath) (name localDir : String) : Inquiry ρ String :=
  .ask (.downloadFile dir name) (store.downloadFile dir name localDir)

/-- Asks for a copy of the files of a folder. -/
def askDirectory (dir : RemotePath) (localDir : String) : Inquiry ρ Unit :=
  .ask (.downloadDirectory dir) (store.downloadDirectory dir localDir)

end Store

end FolderCommands
