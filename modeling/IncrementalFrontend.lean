import IncrementalFrontend.Main
import IncrementalFrontend.Frontend.Workbench
import IncrementalFrontend.Proofs.Incremental.Course
import IncrementalFrontend.Proofs.Incremental.Slots
import IncrementalFrontend.Proofs.Incremental.FromScratch
import IncrementalFrontend.Proofs.Incremental.Memos
import IncrementalFrontend.Proofs.Incremental.Action
import IncrementalFrontend.Proofs.Incremental.Revalidation
import IncrementalFrontend.Proofs.Incremental.InFlight
import IncrementalFrontend.Proofs.Incremental.Answering
import IncrementalFrontend.Proofs.Incremental.Delivery
import IncrementalFrontend.Proofs.Incremental.Revising
import IncrementalFrontend.Proofs.Incremental.History
import IncrementalFrontend.Proofs.Incremental.FreshSession
import IncrementalFrontend.Proofs.Incremental.MemoGraph
import IncrementalFrontend.Proofs.Incremental.Transparency
import IncrementalFrontend.Proofs.Incremental.Replay
import IncrementalFrontend.Proofs.Incremental.Nesting
import IncrementalFrontend.Proofs.Incremental.Fates
import IncrementalFrontend.Proofs.Incremental.Confluence
import IncrementalFrontend.Proofs.Incremental.Stored
import IncrementalFrontend.Proofs.Frontend.Reads
import IncrementalFrontend.Proofs.Types.Carries
import IncrementalFrontend.Proofs.Types.Canonical
import IncrementalFrontend.Proofs.Parser.Phrases
import IncrementalFrontend.Proofs.Parser.Grammar
import IncrementalFrontend.Proofs.Parser.Expressions
import IncrementalFrontend.Proofs.Parser.Headers
import IncrementalFrontend.Proofs.Parser.Nesting
import IncrementalFrontend.Proofs.Parser.Braces
import IncrementalFrontend.Proofs.Parser.Recovery
import IncrementalFrontend.Proofs.Parser.Declarations
import IncrementalFrontend.Proofs.Parser.Statements
import IncrementalFrontend.Proofs.Parser.Acceptance
import IncrementalFrontend.Proofs.Name.Interning
import IncrementalFrontend.Proofs.Token.Tiling
import IncrementalFrontend.Proofs.Token.Coverage
import IncrementalFrontend.Proofs.Token.Spelling
import IncrementalFrontend.Proofs.Token.Walks
import IncrementalFrontend.Proofs.Token.Extents
import IncrementalFrontend.Proofs.Source.Location
import IncrementalFrontend.Proofs.Syntax.Forest
import IncrementalFrontend.Proofs.Syntax.Grove
import IncrementalFrontend.Proofs.Parser.Planting
import IncrementalFrontend.Proofs.Parser.Likeness
import IncrementalFrontend.Proofs.Parser.Correspondence
import IncrementalFrontend.Proofs.Parser.Containment
import IncrementalFrontend.Proofs.Parser.Scanning
import IncrementalFrontend.Proofs.Parser.Declaring
import IncrementalFrontend.Proofs.Parser.Resynchronization
import IncrementalFrontend.Proofs.Parser.Renaming
import IncrementalFrontend.Proofs.Parser.Drafting
import IncrementalFrontend.Proofs.Parser.Entering
import IncrementalFrontend.Proofs.Parser.Openings
import IncrementalFrontend.Proofs.Parser.Course
import IncrementalFrontend.Proofs.Parser.Growth
import IncrementalFrontend.Proofs.Parser.Reporting
import IncrementalFrontend.Proofs.Parser.Commenting
import IncrementalFrontend.Proofs.Parser.Locating
import IncrementalFrontend.Proofs.Printing.Program
import IncrementalFrontend.Proofs.Printing.Reading
import IncrementalFrontend.Proofs.Printing.Expressions
import IncrementalFrontend.Proofs.Printing.Headers
import IncrementalFrontend.Proofs.Printing.Uniqueness
import IncrementalFrontend.Proofs.Printing.Statements
import IncrementalFrontend.Proofs.Incremental.Equations
import IncrementalFrontend.Proofs.Incremental.Failing
import IncrementalFrontend.Proofs.Incremental.Upkeep
import IncrementalFrontend.Proofs.Frontend.Parsing
import IncrementalFrontend.Proofs.Frontend.Independence
import IncrementalFrontend.Proofs.CommandLine.Rounds
import IncrementalFrontend.Proofs.CommandLine.Repeats
import IncrementalFrontend.Proofs.Incremental.Collecting
import IncrementalFrontend.Proofs.Incremental.Sharing
import IncrementalFrontend.Proofs.Incremental.Sessions
import IncrementalFrontend.Proofs.Incremental.Recomputing
import IncrementalFrontend.Proofs.Parser.Progress
import IncrementalFrontend.Proofs.Text.Numeral
import IncrementalFrontend.Proofs.CommandLine.Arguments
import IncrementalFrontend.Proofs.Source.Lines
import IncrementalFrontend.Proofs.Syntax.Assembly
import IncrementalFrontend.Proofs.Parser.Trailing
import IncrementalFrontend.Proofs.Incremental.Resting
import IncrementalFrontend.Proofs.Frontend.FileTrees
import IncrementalFrontend.Proofs.Frontend.Linking
import IncrementalFrontend.Proofs.Frontend.Tracing
import IncrementalFrontend.Proofs.Frontend.Backdating
import IncrementalFrontend.Proofs.Parser.Delivery
import IncrementalFrontend.Proofs.Types.Bindings
import IncrementalFrontend.Proofs.Incremental.Eviction
import IncrementalFrontend.Proofs.Incremental.InStep
import IncrementalFrontend.Proofs.Incremental.Unwinding
import IncrementalFrontend.Proofs.Incremental.Depth
import IncrementalFrontend.Proofs.Incremental.Repeating
import IncrementalFrontend.Proofs.Frontend.Workspaces
