import ConvFlow.CommandLine.Arguments
import ConvFlow.CommandLine.Run
import ConvFlow.Comparison.Check
import ConvFlow.Comparison.Sample
import ConvFlow.Comparison.Tolerance
import ConvFlow.Comparison.Wording
import ConvFlow.Conv.Attributes
import ConvFlow.Conv.Direct
import ConvFlow.Conv.Extent
import ConvFlow.Conv.KernelSum
import ConvFlow.Decimal.Dyadic
import ConvFlow.Decimal.Shortest
import ConvFlow.Decimal.Style
import ConvFlow.Element
import ConvFlow.Execution
import ConvFlow.Folding.Layer
import ConvFlow.Folding.Patch
import ConvFlow.Folding.Rules
import ConvFlow.Graph.Basic
import ConvFlow.Graph.Checked
import ConvFlow.Graph.Error
import ConvFlow.Graph.Order
import ConvFlow.Graph.Shapes
import ConvFlow.Graph.WellFormed
import ConvFlow.Json.Decoder
import ConvFlow.Json.Numeral
import ConvFlow.Json.Printer
import ConvFlow.Json.Reader
import ConvFlow.Json.Tree
import ConvFlow.Json.Value
import ConvFlow.Main
import ConvFlow.NameMap
import ConvFlow.Proofs.Comparison.Closeness
import ConvFlow.Proofs.Comparison.Monotone
import ConvFlow.Proofs.Comparison.Report
import ConvFlow.Proofs.Comparison.Samples
import ConvFlow.Proofs.Comparison.Special
import ConvFlow.Proofs.Comparison.Worst
import ConvFlow.Proofs.Conv.Extent
import ConvFlow.Proofs.Conv.Fold
import ConvFlow.Proofs.Conv.Groups
import ConvFlow.Proofs.Conv.Linear
import ConvFlow.Proofs.Conv.Padding
import ConvFlow.Proofs.Conv.Places
import ConvFlow.Proofs.Conv.Window
import ConvFlow.Proofs.Element
import ConvFlow.Proofs.Execution.Delivery
import ConvFlow.Proofs.Execution.Guarded
import ConvFlow.Proofs.Execution.NewConstant
import ConvFlow.Proofs.Execution.Reordering
import ConvFlow.Proofs.Execution.Run
import ConvFlow.Proofs.Execution.Safety
import ConvFlow.Proofs.Execution.Sources
import ConvFlow.Proofs.Folding.Files
import ConvFlow.Proofs.Folding.Layer
import ConvFlow.Proofs.Folding.Patch
import ConvFlow.Proofs.Graph.Chain
import ConvFlow.Proofs.Graph.Dataflow
import ConvFlow.Proofs.Graph.FreshName
import ConvFlow.Proofs.Graph.Order
import ConvFlow.Proofs.Graph.Shapes
import ConvFlow.Proofs.Graph.Sorting
import ConvFlow.Proofs.Graph.Structure
import ConvFlow.Proofs.Graph.Stuck
import ConvFlow.Proofs.Graph.WellFormed
import ConvFlow.Proofs.Json.Decoding
import ConvFlow.Proofs.Json.Grammar
import ConvFlow.Proofs.Json.Printing
import ConvFlow.Proofs.Json.ReadBack
import ConvFlow.Proofs.Json.Scanning
import ConvFlow.Proofs.Outcome
import ConvFlow.Proofs.Rules.Acceptance
import ConvFlow.Proofs.Rules.Addend
import ConvFlow.Proofs.Rules.Convergence
import ConvFlow.Proofs.Rules.Declining
import ConvFlow.Proofs.Rules.Drift
import ConvFlow.Proofs.Rules.Equivalence
import ConvFlow.Proofs.Rules.Exchange
import ConvFlow.Proofs.Rules.Idempotence
import ConvFlow.Proofs.Rules.Line
import ConvFlow.Proofs.Rules.Moves
import ConvFlow.Proofs.Rules.Preservation
import ConvFlow.Proofs.Rules.Search
import ConvFlow.Proofs.Rules.Simulation
import ConvFlow.Proofs.Rules.Site
import ConvFlow.Proofs.Rules.Supervised
import ConvFlow.Proofs.Rules.Termination
import ConvFlow.Proofs.Rules.Tracing
import ConvFlow.Proofs.Rules.Transform
import ConvFlow.Proofs.Rules.Travel
import ConvFlow.Proofs.Shape
import ConvFlow.Proofs.Shape.Order
import ConvFlow.Proofs.Storage
import ConvFlow.Proofs.Tensor
import ConvFlow.Proofs.Wire.Attributes
import ConvFlow.Proofs.Wire.Options
import ConvFlow.Proofs.Wire.Rereading
import ConvFlow.Proofs.Wire.RoundTrip
import ConvFlow.Proofs.Wire.Storable
import ConvFlow.Rules.AddPastConv
import ConvFlow.Rules.MulPastConv
import ConvFlow.Rules.Rule
import ConvFlow.Rules.Site
import ConvFlow.Rules.Supervised
import ConvFlow.Sampling.KeyStream
import ConvFlow.Settings
import ConvFlow.Shape
import ConvFlow.Storage
import ConvFlow.Tensor
import ConvFlow.Text.Invisible
import ConvFlow.Text.Listing
import ConvFlow.Text.Quoted
import ConvFlow.Wire.Codec
import ConvFlow.Wire.Conversion
import ConvFlow.Wire.Graph
