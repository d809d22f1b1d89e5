import ConfigBinding.Number.Notation
import ConfigBinding.Text.Segments
import ConfigBinding.Text.Quoted
import ConfigBinding.DottedName
import ConfigBinding.Scope
import ConfigBinding.Source.Span
import ConfigBinding.Source.Location
import ConfigBinding.Token
import ConfigBinding.Token.Lexer
import ConfigBinding.Expr
import ConfigBinding.Expr.Printer
import ConfigBinding.Statement
import ConfigBinding.SyntaxError
import ConfigBinding.Token.Cursor
import ConfigBinding.Expr.Parser
import ConfigBinding.Statement.Parser
import ConfigBinding.Text.Hidden
import ConfigBinding.Text.Shown
import ConfigBinding.Text.Terminal
import ConfigBinding.Entries
import ConfigBinding.Value
import ConfigBinding.Value.Params
import ConfigBinding.Error
import ConfigBinding.Registry
import ConfigBinding.Number.Reader
import ConfigBinding.Yaml.Tag
import ConfigBinding.Yaml.Token
import ConfigBinding.Yaml.Scalar
import ConfigBinding.Yaml.Token.Layout
import ConfigBinding.Yaml.Node
import ConfigBinding.Yaml.Content
import ConfigBinding.Yaml.Datum
import ConfigBinding.Manifest
import ConfigBinding.FilePath
import ConfigBinding.Source.Loader
import ConfigBinding.Attempt
import ConfigBinding.Log
import ConfigBinding.BindingTable
import ConfigBinding.Loading
import ConfigBinding.Graph
import ConfigBinding.Evaluation
import ConfigBinding.Resolver
import ConfigBinding.Source.FileTree
import ConfigBinding.Check.Arguments
import ConfigBinding.Check
import ConfigBinding.Main
import ConfigBinding.Proofs.LoadedLog
import ConfigBinding.Proofs.Governing
import ConfigBinding.Proofs.Replay
import ConfigBinding.Proofs.Denotation
import ConfigBinding.Proofs.Dependency
import ConfigBinding.Proofs.UnderWay
import ConfigBinding.Proofs.Uncached
import ConfigBinding.Proofs.Cycles
import ConfigBinding.Proofs.Construction
import ConfigBinding.Proofs.Tracking
import ConfigBinding.Proofs.Caching
import ConfigBinding.Proofs.Runs
import ConfigBinding.Proofs.Resolution
import ConfigBinding.Proofs.CycleReports
import ConfigBinding.Proofs.Additions
import ConfigBinding.Proofs.ConstructorCalls
import ConfigBinding.Proofs.SourceNumbers
import ConfigBinding.Proofs.LoadCalls
import ConfigBinding.Proofs.FailedCalls
import ConfigBinding.Proofs.Reading
import ConfigBinding.Proofs.Reading.Numbers
import ConfigBinding.Proofs.Reading.Expressions
import ConfigBinding.Proofs.Reading.Parsing
import ConfigBinding.Proofs.Reading.Bindings
import ConfigBinding.Proofs.Reading.Statements
import ConfigBinding.Proofs.OperativeText
import ConfigBinding.Proofs.LoadedBindings
import ConfigBinding.Proofs.Operative
import ConfigBinding.Proofs.DefinedMacros
import ConfigBinding.Proofs.Grammar
import ConfigBinding.Proofs.Grammar.Names
import ConfigBinding.Proofs.Grammar.Values
import ConfigBinding.Proofs.Grammar.Statements
import ConfigBinding.Proofs.WrittenStatements
import ConfigBinding.Proofs.Contributions
import ConfigBinding.Proofs.Inclusions
import ConfigBinding.Proofs.CircularInclusions
import ConfigBinding.Proofs.NodeScopes
import ConfigBinding.Proofs.OperativeStatements
import ConfigBinding.Proofs.Lexing.TokenClasses
import ConfigBinding.Proofs.Lexing.LongestMatch
import ConfigBinding.Proofs.Lexing.Tokenization
import ConfigBinding.Proofs.Lexing.Slices
import ConfigBinding.Proofs.Grammar.Parts
import ConfigBinding.Proofs.Grammar.Shifts
import ConfigBinding.Proofs.FaithfulSpans
import ConfigBinding.Proofs.Registrations
import ConfigBinding.Proofs.SourceSpans
import ConfigBinding.Proofs.StoredSpans
import ConfigBinding.Proofs.SourceLookups
import ConfigBinding.Proofs.Provenance
import ConfigBinding.Proofs.Lexing.Lines
import ConfigBinding.Proofs.Reports.Values
import ConfigBinding.Proofs.Reports.Statements
import ConfigBinding.Proofs.MacroIndex
import ConfigBinding.Proofs.DistinctTexts.Pieces
import ConfigBinding.Proofs.DistinctTexts.Values
import ConfigBinding.Proofs.OverrideReports
import ConfigBinding.Proofs.AgreeingConfigs
import ConfigBinding.Proofs.Confinement
import ConfigBinding.Proofs.ImportedNames
import ConfigBinding.Proofs.AlikeLogs
import ConfigBinding.Proofs.DirectBindings
import ConfigBinding.Proofs.Grammar.Respellings
import ConfigBinding.Proofs.ReplacedStatements
import ConfigBinding.Proofs.SplitBlocks
import ConfigBinding.Proofs.FoundNodes
import ConfigBinding.Proofs.NormalPaths
import ConfigBinding.Proofs.MemoryLookups
import ConfigBinding.Proofs.LinesAndColumns
import ConfigBinding.Proofs.Lexing.Failures
import ConfigBinding.Proofs.FloatRange
import ConfigBinding.Proofs.Lexing.NumberRange
import ConfigBinding.Proofs.Lexing.StringLiterals
import ConfigBinding.Proofs.PrintedKeys
