import FolderCommands.Run.Journal

/-!
# The log of a run

What is told of a journal to a reader. Single commands are told only to those who ask for detail.
-/

namespace FolderCommands

/-- What is told of a piece of work. -/
def Work.description : Work → String
  | story request => "process story '" ++ request.folder.text ++ "'"
  | moveFiles folder target => "move page files of '" ++ folder.text ++ "' to '" ++ target ++ "'"
  | page folder file => "update page '" ++ file ++ "' of '" ++ folder.text ++ "'"

/-- The line for a note, if there is one. -/
def Note.line? (verbose : Bool) (note : Note) : Option String :=
  let here := note.session.traversal.currentFolder.text
  match note.event with
  | .begun => some ("INFO run started in '" ++ here ++ "'")
  | .planned folder set commands =>
    some ("INFO processing folder '" ++ folder.text ++ "' (" ++ set.name ++ ", " ++
      toString commands.length ++ " command(s))")
  | .started command =>
    if verbose then some ("DEBUG executing in '" ++ here ++ "': " ++ command.display) else none
  | .delegated work => some ("INFO " ++ work.description)
  | .raised error => some ("ERROR in '" ++ here ++ "': " ++ error.message)
  | .isolated child _ =>
    some ("ERROR folder '" ++ child.text ++ "' failed, continuing with next folder")
  | _ => none

/-- The log of a journal, one line for each note that is told. -/
def Journal.log (verbose : Bool) (journal : Journal) : List String :=
  journal.filterMap (Note.line? verbose)

end FolderCommands
