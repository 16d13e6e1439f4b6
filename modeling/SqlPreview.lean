import SqlPreview.Command.Surroundings
import SqlPreview.Main
import SqlPreview.Proofs.Template.Tree
import SqlPreview.Proofs.Template.Verbatim
import SqlPreview.Proofs.Template.Markup
import SqlPreview.Proofs.Template.RoundTrip
import SqlPreview.Proofs.Template.Origin
import SqlPreview.Proofs.Table
import SqlPreview.Proofs.Parameter.Characters
import SqlPreview.Proofs.Template.Characters
import SqlPreview.Proofs.Template.Residue
import SqlPreview.Proofs.Parameter.Written
import SqlPreview.Proofs.Template.NestedLoops
import SqlPreview.Proofs.Template.Stages
import SqlPreview.Proofs.Template.Place
import SqlPreview.Proofs.Template.Conservation
import SqlPreview.Proofs.Template.Matching
import SqlPreview.Proofs.Parameter.Settled
import SqlPreview.Proofs.Parameter.Shield
import SqlPreview.Proofs.Template.Seams
import SqlPreview.Proofs.Template.Influence
import SqlPreview.Proofs.Text.Split
import SqlPreview.Proofs.Parameter.Element
import SqlPreview.Proofs.Template.Interchange
import SqlPreview.Proofs.Statement.IfTag
import SqlPreview.Proofs.Statement.Tidy
import SqlPreview.Proofs.Template.Blockless
import SqlPreview.Proofs.Block.Condition
import SqlPreview.Proofs.Template.Absence
import SqlPreview.Proofs.Block.Clause
import SqlPreview.Proofs.Template.OptionalParts
import SqlPreview.Proofs.Statement.Finding
import SqlPreview.Proofs.Template.OptionalFilter
import SqlPreview.Proofs.Template.Leftover
import SqlPreview.Proofs.Command.Arguments
import SqlPreview.Proofs.Command.Files
import SqlPreview.Proofs.Command.Layers
import SqlPreview.Proofs.Command.Render
import SqlPreview.Proofs.Parameter.Occurrence
import SqlPreview.Proofs.Block.Loop
import SqlPreview.Proofs.Block.Conjunction
import SqlPreview.Proofs.Block.Given
import SqlPreview.Proofs.Parameter.Assignment
import SqlPreview.Proofs.Statement.LineEnds
import SqlPreview.Proofs.Statement.Pieced
import SqlPreview.Proofs.Block.Commas
import SqlPreview.Proofs.Block.Elements
import SqlPreview.Proofs.Block.Header
import SqlPreview.Proofs.Statement.Noise
import SqlPreview.Proofs.Command.Joined
import SqlPreview.Proofs.Command.Group
import SqlPreview.Proofs.Template.Log
import SqlPreview.Proofs.Template.Canonical
import SqlPreview.Proofs.Parameter.Opener
import SqlPreview.Proofs.Event
