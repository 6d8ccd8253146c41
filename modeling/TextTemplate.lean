import TextTemplate.Main
import TextTemplate.Value.Property
import TextTemplate.Value.Text
import TextTemplate.Proofs.Catalog.Action
import TextTemplate.Proofs.Catalog.Entries
import TextTemplate.Proofs.Catalog.Waiters
import TextTemplate.Proofs.Catalog.Ticks
import TextTemplate.Proofs.Catalog.Loads
import TextTemplate.Proofs.Catalog.Terms
import TextTemplate.Proofs.Catalog.Circle
import TextTemplate.Proofs.Catalog.Gates
import TextTemplate.Proofs.Catalog.Invariant
import TextTemplate.Proofs.Catalog.Settling
import TextTemplate.Proofs.Catalog.Loading
import TextTemplate.Proofs.Catalog.Requesting
import TextTemplate.Proofs.Catalog.Running
import TextTemplate.Proofs.Catalog.Lineage
import TextTemplate.Proofs.Catalog.Progress
import TextTemplate.Proofs.Catalog.Onward
import TextTemplate.Proofs.Catalog.Readiness
import TextTemplate.Proofs.Catalog.Cancelling
import TextTemplate.Proofs.Catalog.Changes
import TextTemplate.Proofs.Catalog.Happening
import TextTemplate.Proofs.Catalog.Fetching
import TextTemplate.Proofs.Catalog.Places
import TextTemplate.Proofs.Catalog.Serving
import TextTemplate.Proofs.Chain.Depth
import TextTemplate.Proofs.Chain.Branches
import TextTemplate.Proofs.Chain.Joining
import TextTemplate.Proofs.Markup.Grammar
import TextTemplate.Proofs.Markup.Parsing
import TextTemplate.Proofs.Markup.Segment
import TextTemplate.Proofs.Markup.Strictness
import TextTemplate.Proofs.Markup.Registering
import TextTemplate.Proofs.Markup.Marks
import TextTemplate.Proofs.Markup.Joining
import TextTemplate.Proofs.Expr.Grammar
import TextTemplate.Proofs.Expr.Reading
import TextTemplate.Proofs.Expr.Parsing
import TextTemplate.Proofs.Expr.Evaluation
import TextTemplate.Proofs.Chain.Merging
import TextTemplate.Proofs.Number.Numeral
import TextTemplate.Proofs.Value.Text
import TextTemplate.Proofs.Chain.Failing
import TextTemplate.Proofs.Value.Privacy
import TextTemplate.Proofs.Chain.Privacy
import TextTemplate.Proofs.Expr.Spelling
import TextTemplate.Proofs.Expr.Wording
import TextTemplate.Proofs.Expr.Printing
import TextTemplate.Proofs.Markup.Scanning
import TextTemplate.Proofs.Markup.Taking
import TextTemplate.Proofs.Markup.Completing
import TextTemplate.Proofs.Markup.Blaming
import TextTemplate.Proofs.Markup.Height
import TextTemplate.Proofs.Chain.Nesting
import TextTemplate.Proofs.Path.Confinement
import TextTemplate.Proofs.Catalog.BrokenLine
import TextTemplate.Proofs.Chain.Names
import TextTemplate.Proofs.Chain.Remembering
import TextTemplate.Proofs.Markup.Cutting
import TextTemplate.Proofs.Expr.Spacing
import TextTemplate.Proofs.Chain.Quoting
import TextTemplate.Proofs.Chain.LoopNames
import TextTemplate.Proofs.Expr.Composing
import TextTemplate.Proofs.Expr.Access
import TextTemplate.Proofs.Number.Double
import TextTemplate.Proofs.Settings.Following
import TextTemplate.Proofs.Value.Pairs
import TextTemplate.Proofs.Data.Objects
import TextTemplate.Proofs.Catalog.SoleRequest
import TextTemplate.Proofs.Command.Sources
import TextTemplate.Proofs.Command.Rendering
import TextTemplate.Proofs.Markup.Placing
import TextTemplate.Proofs.Catalog.Walking
