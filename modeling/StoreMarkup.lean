import StoreMarkup.Check.Basic
import StoreMarkup.Check.Listing
import StoreMarkup.Check.Templates
import StoreMarkup.CommandLine.Options
import StoreMarkup.CommandLine.Run
import StoreMarkup.CommandLine.Switch
import StoreMarkup.Construct.Basic
import StoreMarkup.Construct.Comment
import StoreMarkup.Construct.Expression
import StoreMarkup.Construct.RawText
import StoreMarkup.Construct.Scan
import StoreMarkup.Construct.Tag
import StoreMarkup.Construct.Value
import StoreMarkup.Diagnostic.Basic
import StoreMarkup.Diagnostic.Collector
import StoreMarkup.Diagnostic.Problem
import StoreMarkup.Vocabulary
import StoreMarkup.Document
import StoreMarkup.Files.Path
import StoreMarkup.Files.Tree
import StoreMarkup.Json.Basic
import StoreMarkup.Json.Parser
import StoreMarkup.Json.Printer
import StoreMarkup.Lexer
import StoreMarkup.Pattern.Basic
import StoreMarkup.Pattern.Case
import StoreMarkup.Pattern.Match
import StoreMarkup.Pattern.Parser
import StoreMarkup.Proofs.Acceptance
import StoreMarkup.Proofs.Balance
import StoreMarkup.Proofs.Coverage
import StoreMarkup.Proofs.Diagnostics
import StoreMarkup.Proofs.Forest
import StoreMarkup.Proofs.Layout
import StoreMarkup.Proofs.Lexing
import StoreMarkup.Proofs.Lossless
import StoreMarkup.Proofs.Nesting
import StoreMarkup.Proofs.Parsing
import StoreMarkup.Proofs.Positions
import StoreMarkup.Proofs.RawText
import StoreMarkup.Proofs.Reading
import StoreMarkup.Proofs.Recovery
import StoreMarkup.Proofs.Scanning
import StoreMarkup.Proofs.Spans
import StoreMarkup.Proofs.TagLexing
import StoreMarkup.Proofs.Tiling
import StoreMarkup.Proofs.TokenStream
import StoreMarkup.Report
import StoreMarkup.Service.Address
import StoreMarkup.Service.Configuration
import StoreMarkup.Service.Endpoint
import StoreMarkup.Service.Limit
import StoreMarkup.Service.Location
import StoreMarkup.Service.Origin
import StoreMarkup.Service.Request
import StoreMarkup.Service.Respond
import StoreMarkup.Service.Route
import StoreMarkup.Settings
import StoreMarkup.Source.Cursor
import StoreMarkup.Source.Position
import StoreMarkup.Text.Alphanumeric
import StoreMarkup.Text.Basic
import StoreMarkup.Text.Blank
import StoreMarkup.Text.CaseFold
import StoreMarkup.Text.Integer
import StoreMarkup.Text.Encoding
import StoreMarkup.Text.Lowercase
import StoreMarkup.Text.Printable
import StoreMarkup.Text.Quoted
import StoreMarkup.Text.WideEncoding
import StoreMarkup.Token
import StoreMarkup.Tree.Export
import StoreMarkup.Tree.Fold
import StoreMarkup.Tree.Nesting
import StoreMarkup.Tree.Node
import StoreMarkup.Tree.Outline
import StoreMarkup.Tree.Parser
import StoreMarkup.Tree.Source
import StoreMarkup.Tree.Visitor
import StoreMarkup.Tree.Walk
import StoreMarkup.Main
import StoreMarkup.Proofs.Locality
import StoreMarkup.Proofs.Relabeling
import StoreMarkup.Proofs.Edit
import StoreMarkup.Proofs.Segmentation
import StoreMarkup.Proofs.Concatenation
import StoreMarkup.Proofs.Dropping
import StoreMarkup.Proofs.Reparse
import StoreMarkup.Proofs.Origins
import StoreMarkup.Proofs.LeftOpen
import StoreMarkup.Proofs.SelfClosing
import StoreMarkup.Proofs.RawTextRecovery
import StoreMarkup.Proofs.ExpressionExtent
import StoreMarkup.Proofs.Answers
import StoreMarkup.Proofs.FileTrees
import StoreMarkup.Proofs.Verdict
import StoreMarkup.Proofs.LetterCase
import StoreMarkup.Proofs.Respelling
import StoreMarkup.Proofs.CaseInsensitivity
import StoreMarkup.Proofs.Fragments
import StoreMarkup.Proofs.HashExpressions
import StoreMarkup.Proofs.Unterminated
import StoreMarkup.Proofs.Elements
import StoreMarkup.Proofs.Filling
import StoreMarkup.Proofs.Export
import StoreMarkup.Proofs.ProblemPlaces
import StoreMarkup.Proofs.Listing
import StoreMarkup.Proofs.Boundaries
import StoreMarkup.Proofs.TextRuns
import StoreMarkup.Proofs.CommentExtent
import StoreMarkup.Proofs.Depth
import StoreMarkup.Proofs.Outlines
import StoreMarkup.Proofs.Statistics
import StoreMarkup.Proofs.TemplateFiles
import StoreMarkup.Proofs.Collecting
import StoreMarkup.Proofs.Progress
import StoreMarkup.Proofs.Traversals
