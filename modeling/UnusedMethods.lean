import UnusedMethods.Analysis
import UnusedMethods.Arguments
import UnusedMethods.Command
import UnusedMethods.Config.Decorated
import UnusedMethods.Config.Layer
import UnusedMethods.Config.Manifest
import UnusedMethods.Config.Scan
import UnusedMethods.Decimal.Double
import UnusedMethods.Decimal.Shortest
import UnusedMethods.Detection
import UnusedMethods.Disk
import UnusedMethods.Failure
import UnusedMethods.Gather
import UnusedMethods.Glob.Expression
import UnusedMethods.Glob.Match
import UnusedMethods.Glob.Pattern
import UnusedMethods.Hierarchy
import UnusedMethods.Imports
import UnusedMethods.Json.Decode
import UnusedMethods.Json.Reader
import UnusedMethods.Loading
import UnusedMethods.Main
import UnusedMethods.Model
import UnusedMethods.Path
import UnusedMethods.Reachability
import UnusedMethods.Reading
import UnusedMethods.References
import UnusedMethods.Report
import UnusedMethods.Script.Complaint
import UnusedMethods.Script.Dialect
import UnusedMethods.Script.Early
import UnusedMethods.Script.Early.Check
import UnusedMethods.Script.Early.Jumps
import UnusedMethods.Script.Early.Members
import UnusedMethods.Script.Early.Names
import UnusedMethods.Script.Early.Scope
import UnusedMethods.Script.Early.Surroundings
import UnusedMethods.Script.Early.Types
import UnusedMethods.Script.Escape
import UnusedMethods.Script.Lexer
import UnusedMethods.Script.NameChar
import UnusedMethods.Script.Numeral
import UnusedMethods.Script.Occurrence
import UnusedMethods.Script.Outline
import UnusedMethods.Script.Parser
import UnusedMethods.Script.Parser.Arrow
import UnusedMethods.Script.Parser.Class
import UnusedMethods.Script.Parser.Declaration
import UnusedMethods.Script.Parser.Expression
import UnusedMethods.Script.Parser.Function
import UnusedMethods.Script.Parser.Grammar
import UnusedMethods.Script.Parser.Literal
import UnusedMethods.Script.Parser.Markup
import UnusedMethods.Script.Parser.Modifier
import UnusedMethods.Script.Parser.Module
import UnusedMethods.Script.Parser.Pattern
import UnusedMethods.Script.Parser.State
import UnusedMethods.Script.Parser.Statement
import UnusedMethods.Script.Parser.Target
import UnusedMethods.Script.Parser.Type
import UnusedMethods.Script.Scan
import UnusedMethods.Script.Token
import UnusedMethods.Script.Tree
import UnusedMethods.Snapshot
import UnusedMethods.Targets
import UnusedMethods.Text.Blank
import UnusedMethods.Text.Hidden
import UnusedMethods.Text.Jaro
import UnusedMethods.Text.Lines
import UnusedMethods.Text.Lossy
import UnusedMethods.Text.Quoted
import UnusedMethods.Text.Ranges
import UnusedMethods.Whereabouts
import UnusedMethods.Proofs.Inheritance
import UnusedMethods.Proofs.References
import UnusedMethods.Proofs.Detection
import UnusedMethods.Proofs.Unused
import UnusedMethods.Proofs.NameCollision
import UnusedMethods.Proofs.PathCount
import UnusedMethods.Proofs.Discovery
import UnusedMethods.Proofs.Loading
import UnusedMethods.Proofs.PlainPath
import UnusedMethods.Proofs.LoadedPaths
import UnusedMethods.Proofs.Linking
import UnusedMethods.Proofs.ImportedBase
import UnusedMethods.Proofs.Growth
import UnusedMethods.Proofs.GlobSet
import UnusedMethods.Proofs.TargetSelection
import UnusedMethods.Proofs.KeepGoing
import UnusedMethods.Proofs.GlobStem
import UnusedMethods.Proofs.Placement
import UnusedMethods.Proofs.Relocation
import UnusedMethods.Proofs.OverrideSymmetry
import UnusedMethods.Proofs.PlainScan
import UnusedMethods.Proofs.Mentions
import UnusedMethods.Proofs.LiteralKeys
import UnusedMethods.Proofs.SearchOutcome
import UnusedMethods.Proofs.Bases
import UnusedMethods.Proofs.Merging
import UnusedMethods.Proofs.CircularBases
import UnusedMethods.Proofs.JsonGrammar
import UnusedMethods.Proofs.Decoration
import UnusedMethods.Proofs.ReaderLogic
import UnusedMethods.Proofs.LiteralReaders
import UnusedMethods.Proofs.NumberReaders
import UnusedMethods.Proofs.TokensAhead
import UnusedMethods.Proofs.SkippedValues
import UnusedMethods.Proofs.ValueReaders
import UnusedMethods.Proofs.DecoratedManifest
import UnusedMethods.Proofs.GlobLanguage
import UnusedMethods.Proofs.GlobBelow
import UnusedMethods.Proofs.Walks
import UnusedMethods.Proofs.GatherOutcome
import UnusedMethods.Proofs.ExcludedDirectories
import UnusedMethods.Proofs.GatheredOrder
import UnusedMethods.Proofs.NeverEntered
import UnusedMethods.Proofs.WalkBase
import UnusedMethods.Proofs.AcceptedBytes
import UnusedMethods.Proofs.AcceptedTokens
import UnusedMethods.Proofs.AcceptedPhrases
import UnusedMethods.Proofs.AcceptedValues
import UnusedMethods.Proofs.Undecoration
import UnusedMethods.Proofs.CommentScan
import UnusedMethods.Proofs.CommentFree
import UnusedMethods.Proofs.AcceptedManifest
import UnusedMethods.Proofs.Overloads
import UnusedMethods.Proofs.DefaultLinks
import UnusedMethods.Proofs.LastStep
import UnusedMethods.Proofs.LoadedSources
import UnusedMethods.Proofs.StandardTargets
import UnusedMethods.Proofs.TextBytes
import UnusedMethods.Proofs.LineCounts
import UnusedMethods.Proofs.LossyDecoding
import UnusedMethods.Proofs.LossyLines
import UnusedMethods.Proofs.ReportLines
