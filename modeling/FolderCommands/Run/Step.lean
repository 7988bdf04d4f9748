import FolderCommands.Run.Journal

/-!
# Steps of a run

A run changes the world and the session and keeps a journal. It stops early on an error, or when
folders are nested deeper than it may follow them.
-/

namespace FolderCommands

/-- The state of a run. -/
structure RunState (ρ : Type) where
  world : World ρ
  session : Session
  journal : Journal := []

/-- Why a run stops early. -/
inductive Stop where
  | failed (error : Error)
  | tooDeep
deriving DecidableEq

/-- A part of a run. -/
abbrev Run (ρ : Type) := ExceptT Stop (StateM (RunState ρ))

namespace Run

variable {ρ : Type}

/-- The session as it is. -/
def session : Run ρ Session :=
  fun s ↦ (.ok s.session, s)

/-- Changes the session. -/
def updateSession (f : Session → Session) : Run ρ Unit :=
  fun s ↦ (.ok (), { s with session := f s.session })

/-- Notes an event. -/
def note (event : Event) : Run ρ Unit :=
  fun s ↦ (.ok (), { s with journal := s.journal ++ [⟨event, s.session⟩] })

/-- Stops on an error. -/
def fail (error : Error) : Run ρ α :=
  fun s ↦ (.error (.failed error), s)

/-- Acts on the world. -/
def act (action : Action ρ α) : Run ρ α :=
  fun s ↦
    let (result, world) := action s.world
    (result.mapError .failed, { s with world })

/-- Acts on the world with requests to stores, which are noted. -/
def inquire (inquiry : Inquiry ρ α) : Run ρ α :=
  fun s ↦
    let (result, inquired) := inquiry { world := s.world }
    (result.mapError .failed,
      { s with
        world := inquired.world
        journal := s.journal ++ inquired.requests.map fun r ↦ ⟨.asked r, s.session⟩ })

/-- Runs a part to its end, however that comes. -/
def outcome (part : Run ρ α) : Run ρ (Except Stop α) :=
  fun s ↦
    let (result, s) := part s
    (.ok result, s)

/-- Goes on as another part ended. -/
def resume (result : Except Stop α) : Run ρ α :=
  fun s ↦ (result, s)

/-- Runs a part, then `last` whatever the outcome of the part. -/
def andFinally (part : Run ρ α) (last : Run ρ Unit) : Run ρ α := do
  let result ← part.outcome
  last
  resume result

/-- Changes the error of a part that fails. -/
def mapError (f : Error → Error) (part : Run ρ α) : Run ρ α := do
  match ← part.outcome with
  | .error (.failed error) => fail (f error)
  | result => resume result

/-- Does something about the error of a part that fails. -/
def onError (part : Run ρ α) (handle : Error → Run ρ Unit) : Run ρ α := do
  match ← part.outcome with
  | .error (.failed error) =>
    handle error
    fail error
  | result => resume result

/-- Notes the error of a part as one that arises there. -/
def raising (part : Run ρ α) : Run ρ α :=
  part.onError fun error ↦ note (.raised error)

end Run

end FolderCommands
