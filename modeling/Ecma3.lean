import Ecma3.Assertion
import Ecma3.Ast.Json
import Ecma3.Build.Builder
import Ecma3.Config
import Ecma3.Proofs.Outcome
import Ecma3.Proofs.Token.Match
import Ecma3.Proofs.Token.Cover
import Ecma3.Proofs.Grammar.Coherent
import Ecma3.Proofs.ParseTree.Shape
import Ecma3.Proofs.Grammar.Leaf
import Ecma3.Proofs.Grammar.Expression
import Ecma3.Proofs.Grammar.Program
import Ecma3.Proofs.Build.Errors
import Ecma3.Proofs.Build.Outcome
import Ecma3.Proofs.Build.Construct
import Ecma3.Proofs.Build.Expression
import Ecma3.Proofs.Build.Statement
import Ecma3.Proofs.Build.Program
import Ecma3.Proofs.Build.Correspondence
import Ecma3.Proofs.Build.Limit
import Ecma3.Proofs.Build.Builder
import Ecma3.Proofs.ParseTree.Chain
import Ecma3.Proofs.Build.New
import Ecma3.Proofs.Grammar.New
import Ecma3.Proofs.New
import Ecma3.Proofs.ParseTree.Words
import Ecma3.Proofs.Token.Word
import Ecma3.Proofs.Grammar.Grammatical
import Ecma3.Proofs.Grammar.Reads
import Ecma3.Proofs.Grammar.Recover.Primary
import Ecma3.Proofs.Grammar.Recover.Operator
import Ecma3.Proofs.Grammar.Recover.Program
import Ecma3.Proofs.ParseTree.Nodes
import Ecma3.Proofs.Token.Outline
import Ecma3.Proofs.Grammar.Walk
import Ecma3.Proofs.Grammar.Account
import Ecma3.Proofs.Grammar.Simulation
import Ecma3.Proofs.Grammar.Simulation.Step
import Ecma3.Proofs.Grammar.Simulation.Expression
import Ecma3.Proofs.Grammar.Simulation.Statement
import Ecma3.Proofs.Grammar.Simulation.Program
import Ecma3.Proofs.Grammar.Layout
import Ecma3.Proofs.Grammar.Atoms
import Ecma3.Proofs.Grammar.Rescan
import Ecma3.Proofs.Ast.Leaves
import Ecma3.Proofs.ParseTree.Values
import Ecma3.Proofs.Build.Inversion
import Ecma3.Proofs.Build.Inversion.Statement
import Ecma3.Proofs.Build.Leaves
import Ecma3.Proofs.Build.Leaves.Expression
import Ecma3.Proofs.Build.Leaves.Statement
import Ecma3.Proofs.Build.Leaves.Program
import Ecma3.Proofs.Grammar.Comparison
import Ecma3.Proofs.Grammar.Comparison.Step
import Ecma3.Proofs.Grammar.Comparison.Expression
import Ecma3.Proofs.Grammar.Comparison.Statement
import Ecma3.Proofs.Grammar.Comparison.Program
import Ecma3.Proofs.Grammar.Limit
import Ecma3.Proofs.Limit
import Ecma3.Proofs.Build.Levels
import Ecma3.Proofs.Ast.Piece
import Ecma3.Proofs.ParseTree.Targets
import Ecma3.Proofs.Build.Made
import Ecma3.Proofs.Build.Made.Expression
import Ecma3.Proofs.Build.Made.Statement
import Ecma3.Proofs.Build.Height
import Ecma3.Proofs.Ast.WellFormed
import Ecma3.Proofs.Build.WellFormed
import Ecma3.Proofs.Build.WellFormed.Statement
import Ecma3.Proofs.Build.Size
import Ecma3.Proofs.Grammar.Depth
import Ecma3.Proofs.Grammar.Bound
import Ecma3.Proofs.Grammar.Progress
import Ecma3.Proofs.Grammar.Rounds
import Ecma3.Proofs.Token.Append
import Ecma3.Proofs.Grammar.Append.Behind
import Ecma3.Proofs.Grammar.Append.Before
import Ecma3.Proofs.Grammar.Append
import Ecma3.Proofs.Ast.Relocate
import Ecma3.Proofs.Build.Relocate
import Ecma3.Proofs.Token.Regex
import Ecma3.Proofs.Token.Longest
import Ecma3.Proofs.Token.Longest.Trivia
import Ecma3.Proofs.Token.Longest.Name
import Ecma3.Proofs.Token.Longest.Literal
import Ecma3.Proofs.Token.Maximal
import Ecma3.Proofs.Text.Utf8
import Ecma3.Proofs.Text.Utf16
import Ecma3.Proofs.Text.Encoding
import Ecma3.Proofs.Text.Boundary
import Ecma3.Proofs.Text.Line
import Ecma3.Proofs.ParseTree.Places
import Ecma3.Proofs.Grammar.Places
import Ecma3.Proofs.Grammar.Places.Expression
import Ecma3.Proofs.Grammar.Places.Statement
import Ecma3.Proofs.Grammar.Places.Program
import Ecma3.Proofs.Ast.Site
import Ecma3.Proofs.Json.Printer
import Ecma3.Proofs.Ast.Json
import Ecma3.Proofs.Ast.Printed
import Ecma3.Proofs.Build.Places
import Ecma3.Proofs.Build.Places.Statement
import Ecma3.Proofs.Places
import Ecma3.Proofs.Token.Gap
import Ecma3.Proofs.Grammar.Precedence
import Ecma3.Proofs.Grammar.BareIn
import Ecma3.Proofs.ParseTree.Regular
import Ecma3.Proofs.Grammar.Spacing
import Ecma3.Proofs.Grammar.Spacing.Expression
import Ecma3.Proofs.Grammar.Spacing.Statement
import Ecma3.Proofs.Grammar.Spacing.Program
import Ecma3.Proofs.Grammar.Everywhere
import Ecma3.Proofs.Grammar.Else
import Ecma3.Proofs.Ast.Label
import Ecma3.Proofs.Build.Label
import Ecma3.Proofs.Build.Label.Statement
import Ecma3.Proofs.Build.Label.Stripped
import Ecma3.Proofs.Build.Labelled
import Ecma3.Proofs.Build.Object
import Ecma3.Proofs.Build.PropertyName
import Ecma3.Proofs.Text.Numeral
import Ecma3.Proofs.Text.Position
import Ecma3.Proofs.Token.Single
import Ecma3.Proofs.Token.RegexLiteral
import Ecma3.Proofs.Decimal.Literal
import Ecma3.Proofs.Build.Number
import Ecma3.Proofs.Build.RegexLiteral
import Ecma3.Proofs.ParseTree.DetachNew
import Ecma3.Proofs.Grammar.Order
import Ecma3.Proofs.Build.FirstError
