import Arbor.Command.Workspace
import Arbor.Main
import Arbor.Rule.Formula
import Arbor.Tree.EdgeCursor
import Arbor.Tree.Forest
import Arbor.Proofs.Rule.Matching
import Arbor.Proofs.Binary64.Exact
import Arbor.Proofs.Number.Exact
import Arbor.Proofs.Grammar.FirstMatch
import Arbor.Proofs.Evolution.Simultaneous
import Arbor.Proofs.Tree.Graft
import Arbor.Proofs.Tree.Rooted
import Arbor.Proofs.Turtle.Moves
import Arbor.Proofs.Turtle.RootedTree
import Arbor.Proofs.Tree.Branch
import Arbor.Proofs.Word.Brackets
import Arbor.Proofs.Turtle.Spine
import Arbor.Proofs.Text.Cutting
import Arbor.Proofs.Word.Rendering
import Arbor.Proofs.Tree.Handles
import Arbor.Proofs.Binary64.Product
import Arbor.Proofs.Turtle.Balance
import Arbor.Proofs.Binary64.Nearest
import Arbor.Proofs.Decimal.Numeral
import Arbor.Proofs.Decimal.Shortest
import Arbor.Proofs.Word.RoundTrip
import Arbor.Proofs.Evolution.Brackets
import Arbor.Proofs.Grammar.Fitting
import Arbor.Proofs.Value.Renaming
import Arbor.Proofs.Word.Renaming
import Arbor.Proofs.Rule.Formula
import Arbor.Proofs.Evolution.Locality
import Arbor.Proofs.Species.Crown
import Arbor.Proofs.Species.Honda
import Arbor.Proofs.Fault.Outcome
import Arbor.Proofs.Rule.WellFormed
import Arbor.Proofs.Plan.Outcome
import Arbor.Proofs.Turtle.Callable
import Arbor.Proofs.Species.Growable
import Arbor.Proofs.Plan.Growing
import Arbor.Proofs.Decimal.Fixed
import Arbor.Proofs.Drawing.Reading
import Arbor.Proofs.Drawing.Quotes
import Arbor.Proofs.Drawing.Lines
import Arbor.Proofs.Drawing.Document
import Arbor.Proofs.Turtle.Acceptance
import Arbor.Proofs.Tree.Attached
import Arbor.Proofs.Turtle.ClosedBranch
import Arbor.Proofs.Tree.Renumbered
import Arbor.Proofs.Turtle.Siblings
import Arbor.Proofs.Tree.Traversal
import Arbor.Proofs.Tree.Listing
import Arbor.Proofs.Window.Slices
import Arbor.Proofs.Value.Comparison
import Arbor.Proofs.Rule.Uniform
import Arbor.Proofs.Window.Sequence
import Arbor.Proofs.Evolution.Homomorphism
import Arbor.Proofs.Value.Agreement
import Arbor.Proofs.Rule.Agreement
import Arbor.Proofs.Evolution.Agreement
import Arbor.Proofs.Plan.Described
import Arbor.Proofs.Command.Files
import Arbor.Proofs.Command.Outcome
import Arbor.Proofs.Drawing.Coordinate
import Arbor.Proofs.Drawing.Box
import Arbor.Proofs.Drawing.Bounds
import Arbor.Proofs.Grammar.Offers
import Arbor.Proofs.Rule.Naming
import Arbor.Proofs.Turtle.Rotation
import Arbor.Proofs.Word.Checked
import Arbor.Proofs.Decimal.Canonical
import Arbor.Proofs.Drawing.Title
