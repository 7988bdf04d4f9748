import FolderCommands.Manifest.Basic
import FolderCommands.Store.Request

/-!
# Loading manifests

A manifest is fetched through a scratch directory that is emptied first, so nothing of an earlier
fetch is found there. A manifest that is absent or blank counts as missing.
-/

namespace FolderCommands.Manifest

variable {ρ : Type}

/-- Makes the scratch directory below `tempRoot` through which manifests are fetched. -/
def openScratch (tempRoot : String) : Action ρ Scratch := do
  Action.change (·.makeDirectories tempRoot) FileFault.toError
  Action.update (·.makeScratch tempRoot "cmd") FileFault.toError

/-- Downloads the manifest called `name` and reads it. -/
def download (store : Store ρ) (scratch : String) (folder : RemotePath) (name : String) :
    Inquiry ρ String := do
  let path ← store.askFile folder name scratch
  Inquiry.act (.look (·.readText path) FileFault.toError)

/-- Fetches the text of the manifest of a folder. -/
def fetchText (store : Store ρ) (scratch : String) (folder : RemotePath) (mark : String) :
    Inquiry ρ String := do
  Inquiry.act (.change (·.clearDirectory scratch) FileFault.toError)
  let files ← store.askFiles folder
  if files.contains (fileName mark) then
    let text ← download store scratch folder (fileName mark)
    if Text.allBlank text then throw (.manifestMissing folder.text) else return text
  else throw (.manifestMissing folder.text)

/-- Fetches and reads the manifest of a folder. -/
def load (store : Store ρ) (scratch : String) (folder : RemotePath) (mark : String) :
    Inquiry ρ Manifest := do
  Inquiry.ofExcept (parse (← fetchText store scratch folder mark) folder.text)

end FolderCommands.Manifest
