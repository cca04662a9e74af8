import FrameFlow.Width
import FrameFlow.Descriptor
import FrameFlow.Descriptor.Reader
import FrameFlow.Member
import FrameFlow.Binary.Format
import FrameFlow.Binary.Arithmetic
import FrameFlow.Decimal.Shortest
import FrameFlow.Text.Hidden
import FrameFlow.Text.Quoted
import FrameFlow.Text.Listed
import FrameFlow.Operator
import FrameFlow.Const
import FrameFlow.Const.Folding
import FrameFlow.Value
import FrameFlow.Frame
import FrameFlow.Frame.Merge
import FrameFlow.Insn
import FrameFlow.Insn.Listing
import FrameFlow.Method
import FrameFlow.Host
import FrameFlow.Host.Memo
import FrameFlow.Knowledge
import FrameFlow.Error
import FrameFlow.Graph.Digraph
import FrameFlow.Graph.Flow
import FrameFlow.Graph.Blocks
import FrameFlow.Assembly
import FrameFlow.Config
import FrameFlow.Transfer
import FrameFlow.Analysis.Run
import FrameFlow.Analysis.Descent
import FrameFlow.Analysis
import FrameFlow.Tolerance
import FrameFlow.Scripted
import FrameFlow.Frame.Script
import FrameFlow.Proofs.ValueOrder
import FrameFlow.Proofs.FrameOrder
import FrameFlow.Proofs.Joins
import FrameFlow.Proofs.FoldKind
import FrameFlow.Proofs.Parallel
import FrameFlow.Proofs.FrameOps
import FrameFlow.Proofs.Respect
import FrameFlow.Proofs.Answers
import FrameFlow.Proofs.Monotone
import FrameFlow.Proofs.Visits
import FrameFlow.Proofs.Stopping
import FrameFlow.Proofs.Growth
import FrameFlow.Proofs.Edges
import FrameFlow.Proofs.Entry
import FrameFlow.Proofs.FixedPoint
import FrameFlow.Proofs.Tracking
import FrameFlow.Proofs.Least
import FrameFlow.Proofs.Bound
import FrameFlow.Proofs.Paths
import FrameFlow.Proofs.Outcomes
import FrameFlow.Proofs.Search
import FrameFlow.Proofs.Shape
import FrameFlow.Proofs.Precision
import FrameFlow.Proofs.Reachable
import FrameFlow.Proofs.Failures
import FrameFlow.Proofs.Mirror
import FrameFlow.Proofs.History
import FrameFlow.Proofs.Remembering
import FrameFlow.Proofs.Calls
import FrameFlow.Proofs.Tolerated
import FrameFlow.Proofs.Provenance
import FrameFlow.Proofs.Carriers
import FrameFlow.Proofs.Slots
import FrameFlow.Proofs.WrittenForm
import FrameFlow.Proofs.Labels
import FrameFlow.Proofs.Isotone
import FrameFlow.Proofs.SlotMachine
import FrameFlow.Proofs.LocalTables
import FrameFlow.Proofs.StackLimit
import FrameFlow.Proofs.Acceptance
import FrameFlow.Proofs.Layout
import FrameFlow.Proofs.Partition
import FrameFlow.Proofs.DepthFirst
import FrameFlow.Proofs.ForwardEdges
import FrameFlow.Proofs.Discovery
import FrameFlow.Proofs.OnePass
import FrameFlow.Proofs.Returned
import FrameFlow.Proofs.Skipping
import FrameFlow.Proofs.Locality
import FrameFlow.Proofs.LastWriter
import FrameFlow.Proofs.Seeding
import FrameFlow.Proofs.Patching
import FrameFlow.Proofs.FirstFault
import FrameFlow.Proofs.TwosComplement
import FrameFlow.Proofs.Predecessors
import FrameFlow.Proofs.ListingText
import FrameFlow.Proofs.Quotient
