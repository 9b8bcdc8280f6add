import SassImports.Config.Load
import SassImports.Disk.Edit
import SassImports.Graph.Walk
import SassImports.Proofs.Graph.Bound
import SassImports.Proofs.Graph.Depth
import SassImports.Proofs.Graph.LoadPath
import SassImports.Proofs.Graph.Preorder
import SassImports.Proofs.Graph.Recursion
import SassImports.Proofs.Graph.Stability
import SassImports.Proofs.Resolve.FileEntry
import SassImports.Proofs.Resolve.FirstMatch
import SassImports.Proofs.Stylesheet.Concatenation
import SassImports.Proofs.Stylesheet.Idempotence
import SassImports.Proofs.Stylesheet.Script
import SassImports.Proofs.Stylesheet.Pattern
import SassImports.Proofs.Stylesheet.Recognition
import SassImports.Proofs.Stylesheet.Leftmost
import SassImports.Proofs.Json.Printing
import SassImports.Proofs.Stylesheet.LineEnding
import SassImports.Proofs.Stylesheet.Quotation
import SassImports.Proofs.Config.RoundTrip
import SassImports.Proofs.Disk.Fault
import SassImports.Proofs.Resolve.Children
import SassImports.Proofs.Resolve.OnDisk
import SassImports.Proofs.Stylesheet.StringLiteral
import SassImports.Proofs.Stylesheet.Occurrence
import SassImports.Proofs.Graph.Placement
import SassImports.Proofs.Resolve.Candidates
import SassImports.Proofs.Graph.OwnDirectory
import SassImports.Proofs.Graph.Log
import SassImports.Proofs.Graph.Tagging
import SassImports.Proofs.Graph.JsonForm
import SassImports.Proofs.Config.Discovery
