import GridStencil.Backend
import GridStencil.Check.Intervals
import GridStencil.Check.Ordering
import GridStencil.Check.Report
import GridStencil.CommandLine.Emission
import GridStencil.CommandLine.Folder
import GridStencil.CommandLine.Options
import GridStencil.CommandLine.Run
import GridStencil.Context
import GridStencil.Context.Printer
import GridStencil.Definition.Basic
import GridStencil.Definition.Precedence
import GridStencil.Definition.Printer
import GridStencil.Definition.Reader
import GridStencil.Demand
import GridStencil.Diagnostics
import GridStencil.Digest.Sha256
import GridStencil.Document
import GridStencil.ElementType
import GridStencil.Error
import GridStencil.Grammar.Cursor
import GridStencil.Grammar.Pattern
import GridStencil.Grammar.Phrase
import GridStencil.Grammar.Rule
import GridStencil.Grammar.Tree
import GridStencil.Grid.Extent
import GridStencil.Grid.Interval
import GridStencil.Grid.Offset
import GridStencil.Grid.Region
import GridStencil.Kernel
import GridStencil.Kernel.Call
import GridStencil.Kernel.Frame
import GridStencil.Kernel.Interface
import GridStencil.Kernel.Layout
import GridStencil.Kernel.Registers
import GridStencil.Kernel.Schedule
import GridStencil.Kernel.Tree
import GridStencil.Literal
import GridStencil.Log
import GridStencil.Main
import GridStencil.Name.Fresh
import GridStencil.Name.Table
import GridStencil.Number.Binary64
import GridStencil.Number.Notation
import GridStencil.Number.Power
import GridStencil.Number.Range
import GridStencil.Number.Reader
import GridStencil.Number.Shortest
import GridStencil.Number.Size
import GridStencil.Operator
import GridStencil.Plan
import GridStencil.Policy
import GridStencil.Program.Access
import GridStencil.Program.Basic
import GridStencil.Program.Fold
import GridStencil.Program.Lowering
import GridStencil.Program.Printer
import GridStencil.Program.Scope
import GridStencil.Proofs.Backends
import GridStencil.Proofs.Check.Exact
import GridStencil.Proofs.Check.FirstPlane
import GridStencil.Proofs.Check.Intervals
import GridStencil.Proofs.Check.Ordering
import GridStencil.Proofs.Check.Reordered
import GridStencil.Proofs.Check.Visitors
import GridStencil.Proofs.Computed
import GridStencil.Proofs.Definition.Body
import GridStencil.Proofs.Definition.Choice
import GridStencil.Proofs.Definition.Computation
import GridStencil.Proofs.Definition.Expression
import GridStencil.Proofs.Definition.Follow
import GridStencil.Proofs.Definition.Follower
import GridStencil.Proofs.Definition.Legible.Body
import GridStencil.Proofs.Definition.Legible.Expression
import GridStencil.Proofs.Definition.Legible.Operand
import GridStencil.Proofs.Definition.Legible.Stencil
import GridStencil.Proofs.Definition.Precedence
import GridStencil.Proofs.Definition.Reading
import GridStencil.Proofs.Definition.RoundTrip
import GridStencil.Proofs.Definition.Row
import GridStencil.Proofs.Definition.Spans
import GridStencil.Proofs.Definition.Stencil
import GridStencil.Proofs.Definition.Suited
import GridStencil.Proofs.Definition.Written
import GridStencil.Proofs.Demand
import GridStencil.Proofs.Demand.Equations
import GridStencil.Proofs.Demand.Exact
import GridStencil.Proofs.Demand.Growth
import GridStencil.Proofs.Demand.Least
import GridStencil.Proofs.Demand.Ordered
import GridStencil.Proofs.Demand.Reordered
import GridStencil.Proofs.Demand.Settled
import GridStencil.Proofs.Demand.Walks
import GridStencil.Proofs.Excerpt
import GridStencil.Proofs.Execution
import GridStencil.Proofs.Fingerprint
import GridStencil.Proofs.Folding
import GridStencil.Proofs.Grammar.Depth
import GridStencil.Proofs.Grammar.Matching
import GridStencil.Proofs.Grammar.Numeral
import GridStencil.Proofs.Grammar.Pattern
import GridStencil.Proofs.Grammar.Shape
import GridStencil.Proofs.Grammar.Token
import GridStencil.Proofs.Halo
import GridStencil.Proofs.Hygiene
import GridStencil.Proofs.Identity
import GridStencil.Proofs.Kernel.Accesses
import GridStencil.Proofs.Kernel.Admission
import GridStencil.Proofs.Kernel.Binding
import GridStencil.Proofs.Kernel.Buffer
import GridStencil.Proofs.Kernel.Commute
import GridStencil.Proofs.Kernel.Evaluation
import GridStencil.Proofs.Kernel.Jobs
import GridStencil.Proofs.Kernel.Outline
import GridStencil.Proofs.Kernel.Part
import GridStencil.Proofs.Kernel.Rows
import GridStencil.Proofs.Layout
import GridStencil.Proofs.Literal
import GridStencil.Proofs.Locality
import GridStencil.Proofs.Masked.Bodies
import GridStencil.Proofs.Masked.Lowering
import GridStencil.Proofs.Masked.Planes
import GridStencil.Proofs.Masked.Source
import GridStencil.Proofs.Name.Fresh
import GridStencil.Proofs.Name.Supply
import GridStencil.Proofs.Name.Table
import GridStencil.Proofs.Number.Shortest
import GridStencil.Proofs.Number.Sign
import GridStencil.Proofs.Number.Text
import GridStencil.Proofs.Number.Whole
import GridStencil.Proofs.Obliviousness
import GridStencil.Proofs.Plan
import GridStencil.Proofs.Plan.Effects
import GridStencil.Proofs.Program.Branches
import GridStencil.Proofs.Program.Positions
import GridStencil.Proofs.Program.Reordered
import GridStencil.Proofs.Program.Scopes
import GridStencil.Proofs.Program.Spans
import GridStencil.Proofs.Program.WellFormed
import GridStencil.Proofs.Reference
import GridStencil.Proofs.Refinement
import GridStencil.Proofs.Registry
import GridStencil.Proofs.Registry.Cells
import GridStencil.Proofs.Registry.History
import GridStencil.Proofs.Reordering
import GridStencil.Proofs.Resolved
import GridStencil.Proofs.Simulation
import GridStencil.Proofs.Sizes
import GridStencil.Proofs.Soundness
import GridStencil.Proofs.Spans
import GridStencil.Proofs.Splitting
import GridStencil.Proofs.Steps
import GridStencil.Proofs.Storage
import GridStencil.Proofs.Stored
import GridStencil.Proofs.Traversal
import GridStencil.Registry
import GridStencil.Source
import GridStencil.StencilId
import GridStencil.Storage
import GridStencil.Text.Blank
import GridStencil.Text.Lines
import GridStencil.Text.Phrase
import GridStencil.Text.Utf8
import GridStencil.Traversal
