import PklSyntax.Editor.Opening
import PklSyntax.Editor.Session
import PklSyntax.Files.FileTree
import PklSyntax.Literal.Value
import PklSyntax.Main
import PklSyntax.Tree.Grouping
import PklSyntax.Tree.Shape
import PklSyntax.Proofs.Adjacency.Module
import PklSyntax.Proofs.Documentation.Items
import PklSyntax.Proofs.Growth.Limit
import PklSyntax.Proofs.Growth.Progress
import PklSyntax.Proofs.Header.Module
import PklSyntax.Proofs.Labels.Module
import PklSyntax.Proofs.Tally.Module
import PklSyntax.Proofs.Layout.Module
import PklSyntax.Proofs.Printing.Cursor
import PklSyntax.Proofs.Printing.Grouping
import PklSyntax.Proofs.Printing.Lookahead
import PklSyntax.Proofs.Printing.Operand
import PklSyntax.Proofs.Printing.Expression
import PklSyntax.Proofs.Printing.Facing
import PklSyntax.Proofs.Printing.Module
import PklSyntax.Proofs.Printing.Type
import PklSyntax.Proofs.Printing.StringText
import PklSyntax.Proofs.Options.Result
import PklSyntax.Proofs.Rendering.Color
import PklSyntax.Proofs.Rendering.Snippet
import PklSyntax.Proofs.Source.Position
import PklSyntax.Proofs.LineEnding.Result
import PklSyntax.Proofs.Moving.Pieces
import PklSyntax.Proofs.Moving.Stacked
import PklSyntax.Proofs.Precedence.Climbing
import PklSyntax.Proofs.Numbers.Reading
import PklSyntax.Proofs.Numbers.Decision
import PklSyntax.Proofs.Strings.Partition
import PklSyntax.Proofs.Names.Type
import PklSyntax.Proofs.Names.Expression
import PklSyntax.Proofs.Names.Module
import PklSyntax.Proofs.Documentation.Classes
import PklSyntax.Proofs.Course.Grammar
import PklSyntax.Proofs.Editor.Hover
import PklSyntax.Proofs.Editor.Symbols
import PklSyntax.Proofs.Editor.Completion
import PklSyntax.Proofs.Shapes.Equality
import PklSyntax.Proofs.Listing.Faithful
