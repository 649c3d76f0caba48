import Novella.Canvas.Arrangement
import Novella.Canvas.Basic
import Novella.Canvas.Document
import Novella.Canvas.Projection
import Novella.Command.Arguments
import Novella.Command.Report
import Novella.Command.Run
import Novella.Conversion
import Novella.Decimal.Binary64
import Novella.Decimal.Layout
import Novella.Decimal.Reading
import Novella.Decimal.Shortest
import Novella.Dict
import Novella.Fault
import Novella.Files.Disk
import Novella.Files.Saved
import Novella.Files.Tree
import Novella.Flow.Document
import Novella.Flow.Dot
import Novella.Flow.Graph
import Novella.Flow.Kind
import Novella.Flow.Lowering
import Novella.Flow.Node
import Novella.Flow.Ports
import Novella.Flow.Raising
import Novella.Flow.Value
import Novella.Graph.Basic
import Novella.Graph.Cycles
import Novella.Graph.Document
import Novella.Graph.Port
import Novella.Graph.Walk
import Novella.Json.Decode
import Novella.Json.Mishap
import Novella.Json.Number
import Novella.Json.Schema
import Novella.Json.Tree
import Novella.Json.Value
import Novella.Main
import Novella.Schemas
import Novella.Script.Difference
import Novella.Script.Expression
import Novella.Script.Grammar
import Novella.Script.Lexeme
import Novella.Script.Parser
import Novella.Script.Printer
import Novella.Script.Program
import Novella.Script.Reader
import Novella.Script.Rule
import Novella.Settings.Basic
import Novella.Settings.Document
import Novella.Story.Document
import Novella.Story.Graph
import Novella.Story.Kind
import Novella.Story.Validation
import Novella.Text.Blank
import Novella.Text.Excerpt
import Novella.Text.Invisible
import Novella.Text.Lines
import Novella.Text.Quoted
import Novella.Text.Shown
import Novella.Text.Yaml
import Novella.Toml.Reader
import Novella.Toml.Value
import Novella.Proofs.Conversion
import Novella.Proofs.Decimal.Literal
import Novella.Proofs.Decimal.Rounding
import Novella.Proofs.Dict
import Novella.Proofs.Flow.Chains
import Novella.Proofs.Flow.Characters
import Novella.Proofs.Flow.LoweredChains
import Novella.Proofs.Flow.LoweredScenes
import Novella.Proofs.Flow.RaisedChains
import Novella.Proofs.Flow.RaisedNames
import Novella.Proofs.Flow.RoundTrip
import Novella.Proofs.Graph.Growth
import Novella.Proofs.Script.BlockReading
import Novella.Proofs.Script.Differences
import Novella.Proofs.Script.ExpressionReading
import Novella.Proofs.Script.Expressions
import Novella.Proofs.Script.Layout
import Novella.Proofs.Script.Lexemes
import Novella.Proofs.Script.Naming
import Novella.Proofs.Script.ProgramReading
import Novella.Proofs.Script.Reading
import Novella.Proofs.Script.Rebuild
import Novella.Proofs.Script.StatementReading
import Novella.Proofs.Script.CanonicalText
import Novella.Proofs.CanonicalForm
import Novella.Proofs.Json.Numbers
import Novella.Proofs.Json.Reading
import Novella.Proofs.Flow.Reachable
import Novella.Proofs.Canvas.Projection
import Novella.Proofs.Flow.Document
import Novella.Proofs.Flow.ReadAlike
import Novella.Proofs.Canvas.Document
import Novella.Proofs.Routes
import Novella.Proofs.Flow.SourceOrder
import Novella.Proofs.Graph.Walks
import Novella.Proofs.Flow.Forest
import Novella.Proofs.Graph.Runs
import Novella.Proofs.Runs
import Novella.Proofs.Story.Ports
import Novella.Proofs.Flow.Reload
import Novella.Proofs.Script.Heads
import Novella.Proofs.Script.Exactness
import Novella.Proofs.Graph.DepthFirst
import Novella.Proofs.Graph.TopologicalOrder
import Novella.Proofs.Story.Document
import Novella.Proofs.Story.Reload
import Novella.Proofs.Decimal.Numerals
import Novella.Proofs.Script.Findings
import Novella.Proofs.Script.Expressible
import Novella.Proofs.Graph.CycleSearch
import Novella.Proofs.Graph.Cycles
import Novella.Proofs.Graph.Reachability
import Novella.Proofs.Graph.Layers
import Novella.Proofs.Graph.Preorder
import Novella.Proofs.Flow.ReadingOrder
import Novella.Proofs.Flow.Validity
import Novella.Proofs.Story.Validity
import Novella.Proofs.Canvas.Arrangement
import Novella.Proofs.Canvas.Editing
import Novella.Proofs.Graph.Adjacency
import Novella.Proofs.Flow.Passes
import Novella.Proofs.Flow.Comments
import Novella.Proofs.Flow.Shells
import Novella.Proofs.Flow.Visits
import Novella.Proofs.Flow.RaisingEnds
import Novella.Proofs.Script.Places
import Novella.Proofs.Script.WordBoundaries
import Novella.Proofs.Script.OperatorDepths
import Novella.Proofs.Script.Parentheses
import Novella.Proofs.Flow.Dot
import Novella.Proofs.Story.Options
import Novella.Proofs.Text.Excerpt
import Novella.Proofs.Json.Spots
