import KustoFacts.Catalog
import KustoFacts.Command.FreshId
import KustoFacts.Command.Help
import KustoFacts.Command.Run
import KustoFacts.Command.Session
import KustoFacts.Duration
import KustoFacts.Facts.Basic
import KustoFacts.Facts.Document
import KustoFacts.Facts.Extract
import KustoFacts.Facts.JoinKind
import KustoFacts.Facts.Joins
import KustoFacts.Facts.Survey
import KustoFacts.Files
import KustoFacts.Json.Reader
import KustoFacts.Json.Value
import KustoFacts.Log.Level
import KustoFacts.Log.Line
import KustoFacts.Log.Record
import KustoFacts.Main
import KustoFacts.NameSet
import KustoFacts.Number.Decimal
import KustoFacts.Number.Double
import KustoFacts.Number.Integer
import KustoFacts.Number.Power
import KustoFacts.Output.KeyOrder
import KustoFacts.Output.Writer
import KustoFacts.Output.Yaml
import KustoFacts.Query.Catalog
import KustoFacts.Query.Diagnostic
import KustoFacts.Query.Lexeme
import KustoFacts.Query.Node
import KustoFacts.Query.Parsed
import KustoFacts.Query.Parser.Basic
import KustoFacts.Query.Parser.Expression
import KustoFacts.Query.Parser.Goal
import KustoFacts.Query.Parser.Grammar
import KustoFacts.Query.Parser.Operator
import KustoFacts.Query.Parser.Primary
import KustoFacts.Query.Parser.Statement
import KustoFacts.Query.Parser.Words
import KustoFacts.Query.Symbols
import KustoFacts.Query.Token
import KustoFacts.Query.Tokens
import KustoFacts.Query.Unquoted
import KustoFacts.Records.Cache
import KustoFacts.Records.Line
import KustoFacts.Records.Record
import KustoFacts.Records.Run
import KustoFacts.Records.Source
import KustoFacts.Settings.Basic
import KustoFacts.Settings.Document
import KustoFacts.Settings.Flag
import KustoFacts.Settings.Key
import KustoFacts.Settings.Load
import KustoFacts.Settings.Tree
import KustoFacts.Text.Base64
import KustoFacts.Text.Blank
import KustoFacts.Text.Bytes
import KustoFacts.Text.Letter
import KustoFacts.Text.Lowercase
import KustoFacts.Text.Printable
import KustoFacts.Text.Quoted
import KustoFacts.Text.Ranges
import KustoFacts.Text.Utf8
import KustoFacts.Yaml.Cell
import KustoFacts.Yaml.Node
import KustoFacts.Yaml.Plain
import KustoFacts.Yaml.Reader
import KustoFacts.Yaml.Scalar
import KustoFacts.Yaml.Scan
import KustoFacts.Yaml.Tag
import KustoFacts.Yaml.Timestamp
import KustoFacts.Yaml.Token
import KustoFacts.Yaml.Writer
import KustoFacts.Proofs.Query.Frame
import KustoFacts.Proofs.Query.Agreement
import KustoFacts.Proofs.Query.LookAhead
import KustoFacts.Proofs.Facts.Findings
import KustoFacts.Proofs.Facts.Outcome
import KustoFacts.Proofs.Facts.Sequence
import KustoFacts.Proofs.Facts.Pipeline
import KustoFacts.Proofs.Records.Cache
import KustoFacts.Proofs.Records.Transparency
import KustoFacts.Proofs.Query.Lexer
import KustoFacts.Proofs.Query.Lossless
import KustoFacts.Proofs.Query.TablePlaces
import KustoFacts.Proofs.Facts.Tables
import KustoFacts.Proofs.Records.Tally
import KustoFacts.Proofs.Records.Balance
import KustoFacts.Proofs.Records.Account
import KustoFacts.Proofs.Records.Pool
import KustoFacts.Proofs.Records.Parallel
import KustoFacts.Proofs.Query.Along
import KustoFacts.Proofs.Query.Grown
import KustoFacts.Proofs.Query.Grown.Expression
import KustoFacts.Proofs.Query.Grown.Operator
import KustoFacts.Proofs.Query.Grown.Primary
import KustoFacts.Proofs.Query.Grown.Statement
import KustoFacts.Proofs.Query.ParsedGrown
import KustoFacts.Proofs.Query.Geometry
import KustoFacts.Proofs.Query.ToEnd
import KustoFacts.Proofs.Query.Termination
import KustoFacts.Proofs.Records.Lines
import KustoFacts.Proofs.Query.SourceOrder
import KustoFacts.Proofs.Query.OperatorPath
import KustoFacts.Proofs.Query.NestedSearches
import KustoFacts.Proofs.Query.Nesting
import KustoFacts.Proofs.Facts.TableNames
import KustoFacts.Proofs.Facts.Parts
import KustoFacts.Proofs.Facts.Shown
import KustoFacts.Proofs.Facts.Joined
import KustoFacts.Proofs.Query.Bindings
import KustoFacts.Proofs.Facts.Catalogs
import KustoFacts.Proofs.Facts.Targets
import KustoFacts.Proofs.Facts.Applied
import KustoFacts.Proofs.Query.Accepted
import KustoFacts.Proofs.Query.Recovery
import KustoFacts.Proofs.Facts.QuotedNames
import KustoFacts.Proofs.Query.Comments
import KustoFacts.Proofs.Query.Precedence
import KustoFacts.Proofs.Query.ExprParsed
import KustoFacts.Proofs.Query.Spacing
import KustoFacts.Proofs.Query.Overrun
import KustoFacts.Proofs.Query.Boundaries
import KustoFacts.Proofs.Query.Scoping
import KustoFacts.Proofs.Facts.NormalKinds
import KustoFacts.Proofs.Facts.Reordered
import KustoFacts.Proofs.Records.Framing
import KustoFacts.Proofs.Output.JsonLines
import KustoFacts.Proofs.Query.NestingLimit
import KustoFacts.Proofs.Settings.Precedence
