import FolderCommands.Main
import FolderCommands.Store.Memory
import FolderCommands.Proofs.Descendant
import FolderCommands.Proofs.Run.Course
import FolderCommands.Proofs.Run.Steps
import FolderCommands.Proofs.Run.Equations
import FolderCommands.Proofs.Run.Worlds
import FolderCommands.Proofs.Run.Adherence
import FolderCommands.Proofs.Run.Along
import FolderCommands.Proofs.Run.Confinement
import FolderCommands.Proofs.Run.Settled
import FolderCommands.Proofs.Run.Memory
import FolderCommands.Proofs.Plan
import FolderCommands.Proofs.Run.Refusal
import FolderCommands.Proofs.Run.Nesting
import FolderCommands.Proofs.Run.Termination
import FolderCommands.Proofs.Run.Independence
import FolderCommands.Proofs.Run.Growth
import FolderCommands.Proofs.Run.Accounting
import FolderCommands.Proofs.Run.Blame
import FolderCommands.Proofs.Run.Likeness
import FolderCommands.Proofs.Run.Siblings
import FolderCommands.Proofs.Manifest.Agreement
import FolderCommands.Proofs.Manifest.Writing
import FolderCommands.Proofs.Grammar.Language
import FolderCommands.Proofs.Manifest.Ending
import FolderCommands.Proofs.Run.Unpublished
import FolderCommands.Proofs.Run.Belonging
import FolderCommands.Proofs.Manifest.Freshness
import FolderCommands.Proofs.Run.DryRun
import FolderCommands.Proofs.Manifest.Whitelist
import FolderCommands.Proofs.Run.Descents
import FolderCommands.Proofs.Run.Clearance
import FolderCommands.Proofs.Manifest.Unquoted
import FolderCommands.Proofs.Data.RoundTrip
import FolderCommands.Proofs.Manifest.Planning
import FolderCommands.Proofs.Run.Visits
import FolderCommands.Proofs.Grammar.Tabs
import FolderCommands.Proofs.Grammar.LineEndings
import FolderCommands.Proofs.Manifest.Faults
import FolderCommands.Proofs.Run.Transfer
import FolderCommands.Proofs.Users.Entries
import FolderCommands.Proofs.Spelling
import FolderCommands.Proofs.Run.Recipients
import FolderCommands.Proofs.Grammar.Offsets
import FolderCommands.Proofs.Store.Printed
import FolderCommands.Proofs.Run.Elapsed
