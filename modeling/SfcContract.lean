import SfcContract.Command.Line
import SfcContract.Main
import SfcContract.Server
import SfcContract.Time
import SfcContract.Proofs.Code.Passage
import SfcContract.Proofs.Text.Search
import SfcContract.Proofs.Code.Entry
import SfcContract.Proofs.Code.Written
import SfcContract.Proofs.Property.ObjectReadBack
import SfcContract.Proofs.Property.TypeReadBack
import SfcContract.Proofs.Contract.Consistency
import SfcContract.Proofs.Code.Part
import SfcContract.Proofs.Property.Provenance
import SfcContract.Proofs.Contract.Provenance
import SfcContract.Proofs.Text.Progress
import SfcContract.Proofs.Region.Assembly
import SfcContract.Proofs.Markup.Findings
import SfcContract.Proofs.Event.Idioms
import SfcContract.Proofs.Json.ReadBack
import SfcContract.Proofs.Contract.Size
import SfcContract.Proofs.Manifest.RoundTrip
import SfcContract.Proofs.Tree
import SfcContract.Proofs.Tree.Change
import SfcContract.Proofs.Command.Outputs
import SfcContract.Proofs.Command.Display
import SfcContract.Proofs.Text.Order
import SfcContract.Proofs.Scan.Isolation
import SfcContract.Proofs.Scan.Plan
import SfcContract.Proofs.Path
import SfcContract.Proofs.Tree.Below
import SfcContract.Proofs.Glob
import SfcContract.Proofs.Scan.Distinct
import SfcContract.Proofs.Usage
import SfcContract.Proofs.Server.Paging
import SfcContract.Proofs.Code.Comment
import SfcContract.Proofs.Property.Comments
import SfcContract.Proofs.Event.Quoted
import SfcContract.Proofs.Event.Comments
import SfcContract.Proofs.Contract.Comments
import SfcContract.Proofs.Path.Descent
import SfcContract.Proofs.Tree.Placed
import SfcContract.Proofs.Glob.Placed
import SfcContract.Proofs.Scan.Relocation
import SfcContract.Proofs.Property.Merge
import SfcContract.Proofs.Property.NamedType
import SfcContract.Proofs.Property.Defaults
import SfcContract.Proofs.Markup.Opening
import SfcContract.Proofs.Slot.Written
import SfcContract.Proofs.Markup.Locality
import SfcContract.Proofs.Region.Placement
import SfcContract.Proofs.Code.Split
import SfcContract.Proofs.Code.Bracket
import SfcContract.Proofs.Markup.Branches
import SfcContract.Proofs.Path.Ancestors
import SfcContract.Proofs.Config.Discovery
import SfcContract.Proofs.Scan.Walk
import SfcContract.Proofs.Scan.Ignored
import SfcContract.Proofs.Text.Line
import SfcContract.Proofs.Report.Table
import SfcContract.Proofs.Report.Headings
import SfcContract.Proofs.Text.Lower
import SfcContract.Proofs.Manifest.Query
import SfcContract.Proofs.Code.Nesting
import SfcContract.Proofs.Code.Hidden
