import Routing.Captures
import Routing.Main
import Routing.Path
import Routing.Plan
import Routing.Route.Compose
import Routing.Table.Entry
import Routing.Table.Listing
import Routing.Table.Report
import Routing.Table.Tally
import Routing.Tree.Draft
import Routing.Tree.Form
import Routing.Tree.Merge
import Routing.Tree.Rows
import Routing.Tree.Walk
import Routing.Proofs.Address
import Routing.Proofs.Walk
import Routing.Proofs.Lockstep
import Routing.Proofs.Spine
import Routing.Proofs.Composed
import Routing.Proofs.Flat
import Routing.Proofs.Path
import Routing.Proofs.Shadow
import Routing.Proofs.Reach
import Routing.Proofs.Agree
import Routing.Proofs.Ordered
import Routing.Proofs.Regroup
import Routing.Proofs.Bisim
import Routing.Proofs.Permute
import Routing.Proofs.Staged
import Routing.Proofs.Survivors
import Routing.Proofs.Nodes
import Routing.Proofs.Nested
import Routing.Proofs.Preorder
import Routing.Proofs.Listed
import Routing.Proofs.Indistinct
import Routing.Proofs.Captures
import Routing.Proofs.Resume
import Routing.Proofs.Language
import Routing.Proofs.Key
import Routing.Proofs.Keyed
import Routing.Proofs.Session
import Routing.Proofs.Spelling
import Routing.Proofs.Grammar
import Routing.Proofs.Display
import Routing.Proofs.Fault
import Routing.Proofs.FirstFault
import Routing.Proofs.Linear
import Routing.Proofs.Segments
import Routing.Proofs.Edits
import Routing.Proofs.DeadEnds
import Routing.Proofs.Decimal
import Routing.Proofs.OneLine
import Routing.Proofs.Outline
import Routing.Proofs.Message
import Routing.Proofs.Report
