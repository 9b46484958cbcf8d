import DocDirectives.Text.Blank
import DocDirectives.Text.Slice
import DocDirectives.Text.Word
import DocDirectives.Text.Quoted
import DocDirectives.Number.Integer
import DocDirectives.Number.Binary64
import DocDirectives.Number.Shortest
import DocDirectives.Json
import DocDirectives.Token
import DocDirectives.Token.Lexeme
import DocDirectives.Token.Classifier
import DocDirectives.Token.Cursor
import DocDirectives.Literal
import DocDirectives.Arguments
import DocDirectives.Symbol
import DocDirectives.IgnoredNames
import DocDirectives.Registry
import DocDirectives.Failure
import DocDirectives.Grammar
import DocDirectives.Parser
import DocDirectives.Language
import DocDirectives.Imports.Visibility
import DocDirectives.Imports.UseTree
import DocDirectives.Imports
import DocDirectives.Declaration
import DocDirectives.Declaration.Head
import DocDirectives.Declaration.Braces
import DocDirectives.Declaration.Line
import DocDirectives.Declaration.Scan
import DocDirectives.Reading
import DocDirectives.Lint
import DocDirectives.FileTree
import DocDirectives.Project
import DocDirectives.Terminal
import DocDirectives.Report
import DocDirectives.Lint.Decode
import DocDirectives.Toml.Value
import DocDirectives.Toml.Lexical
import DocDirectives.Toml.Document
import DocDirectives.Toml.Writer
import DocDirectives.Config
import DocDirectives.Command.Options
import DocDirectives.Command.Help
import DocDirectives.Command
import DocDirectives.Main
import DocDirectives.Proofs.Token.Kind
import DocDirectives.Proofs.Token.Extent
import DocDirectives.Proofs.Token.Quotes
import DocDirectives.Proofs.Token.Lexing
import DocDirectives.Proofs.Token.Decoration
import DocDirectives.Proofs.Grammar.Derivation
import DocDirectives.Proofs.Prose
import DocDirectives.Proofs.Resolution
import DocDirectives.Proofs.Grammar.Group
import DocDirectives.Proofs.Grammar.Span
import DocDirectives.Proofs.Comment.Composition
import DocDirectives.Proofs.Comment.Ignoring
import DocDirectives.Proofs.Comment.Failing
import DocDirectives.Proofs.Comment.Naming
import DocDirectives.Proofs.Comment.Catalog
import DocDirectives.Proofs.Lint.Share
import DocDirectives.Proofs.Reading
import DocDirectives.Proofs.Lint.Agreement
import DocDirectives.Proofs.Session.Outcome
import DocDirectives.Proofs.Session.Reader
import DocDirectives.Proofs.Session.Agreement
import DocDirectives.Proofs.Session.Memory
import DocDirectives.Proofs.Text.Lines
import DocDirectives.Proofs.Imports.Tree
import DocDirectives.Proofs.Imports.Flattening
import DocDirectives.Proofs.Imports.Statements
import DocDirectives.Proofs.Declaration.Depth
import DocDirectives.Proofs.Declaration.Kinds
import DocDirectives.Proofs.Declaration.Attribution
import DocDirectives.Proofs.Declaration.Nesting
import DocDirectives.Proofs.Declaration.Ownership
import DocDirectives.Proofs.Declaration.Noise
import DocDirectives.Proofs.Imports.Comments
import DocDirectives.Proofs.Declaration.Closing
import DocDirectives.Proofs.Construction
import DocDirectives.Proofs.Lint.Totals
import DocDirectives.Proofs.Session.Checking
import DocDirectives.Proofs.Unmarked
import DocDirectives.Proofs.Literal.Indices
import DocDirectives.Proofs.Literal.Keys
import DocDirectives.Proofs.Literal.Names
import DocDirectives.Proofs.Grammar.Brackets
import DocDirectives.Proofs.Declaration.Layout
import DocDirectives.Proofs.Declaration.ImplHeader
import DocDirectives.Proofs.Imports.Neighbours
import DocDirectives.Proofs.Imports.Layouts
import DocDirectives.Proofs.Imports.Python
import DocDirectives.Proofs.Declaration.Segments
import DocDirectives.Proofs.Declaration.Indented
import DocDirectives.Proofs.Literal.Strings
import DocDirectives.Proofs.Comment.Printing
import DocDirectives.Proofs.Comment.Faults
import DocDirectives.Proofs.Token.Cutting
import DocDirectives.Proofs.Literal.Insertion
import DocDirectives.Proofs.Session.Progress
import DocDirectives.Proofs.Comment.Tagged
import DocDirectives.Proofs.Session.Lookup
import DocDirectives.Proofs.Lint.Options
import DocDirectives.Proofs.Session.Moves
import DocDirectives.Proofs.Imports.ShortName
