import CommandTree.Text.Whitespace
import CommandTree.Text.Span
import CommandTree.Text.Case
import CommandTree.Text.Printable
import CommandTree.Text.Quoted
import CommandTree.Identity
import CommandTree.Element
import CommandTree.Declaration
import CommandTree.Settings
import CommandTree.Namespace.Word
import CommandTree.Namespace.Fault
import CommandTree.Namespace.Token
import CommandTree.Namespace.Memo
import CommandTree.Source
import CommandTree.Role
import CommandTree.TypeText
import CommandTree.Role.Capture
import CommandTree.Tree.Node
import CommandTree.Tree
import CommandTree.Diagnostic
import CommandTree.Diagnostic.Render
import CommandTree.Environment
import CommandTree.Assembly.Route
import CommandTree.Assembly.Place
import CommandTree.Assembly
import CommandTree.Lint.DuplicateBinding
import CommandTree.Lint.PublicFinal
import CommandTree.Lint.ArgumentType
import CommandTree.Lint.Unexecuted
import CommandTree.Lint
import CommandTree.Factory.Statement
import CommandTree.Factory.Fault
import CommandTree.Factory.Name
import CommandTree.Factory.Branch
import CommandTree.Factory
import CommandTree.Factory.Print
import CommandTree.Compilation
import CommandTree.Json.Binary64
import CommandTree.Json.Shortest
import CommandTree.Json.Number
import CommandTree.Json.Text
import CommandTree.Json.Document
import CommandTree.Json.Reader
import CommandTree.Json.Value
import CommandTree.Manifest.Problem
import CommandTree.Manifest.Form
import CommandTree.Manifest.Decode
import CommandTree.Manifest
import CommandTree.Manifest.Writer
import CommandTree.Report
import CommandTree.CommandLine.Options
import CommandTree.CommandLine
import CommandTree.Main
import CommandTree.Proofs.Tree.Nodes
import CommandTree.Proofs.Tree.WellFormed
import CommandTree.Proofs.Tree.Commands
import CommandTree.Proofs.Environment.Scopes
import CommandTree.Proofs.Environment.WellFormed
import CommandTree.Proofs.Namespace.Memo
import CommandTree.Proofs.Assembly.Routes
import CommandTree.Proofs.Assembly.Steps
import CommandTree.Proofs.Factory.Forest
import CommandTree.Proofs.Factory.Names
import CommandTree.Proofs.Factory.Emission
import CommandTree.Proofs.Factory.Body
import CommandTree.Proofs.Factory.Building
import CommandTree.Proofs.Factory.Execution
import CommandTree.Proofs.Lints
import CommandTree.Proofs.Acceptance
import CommandTree.Proofs.Factory.References
import CommandTree.Proofs.Tree.Mirrors
import CommandTree.Proofs.Assembly.Reached
import CommandTree.Proofs.Assembly.Growth
import CommandTree.Proofs.Assembly.Coverage
import CommandTree.Proofs.Assembly.Following
import CommandTree.Proofs.Assembly.Outcome
import CommandTree.Proofs.Assembly.Agreement
import CommandTree.Proofs.Assembly.ReadBack
import CommandTree.Proofs.Assembly.Conflicts
import CommandTree.Proofs.Assembly.Repetition
import CommandTree.Proofs.Assembly.Contents
import CommandTree.Proofs.Assembly.Order
import CommandTree.Proofs.Assembly.Insertion
import CommandTree.Proofs.Tree.Embedding
import CommandTree.Proofs.Assembly.Embedding
import CommandTree.Proofs.Assembly.Interleaving
import CommandTree.Proofs.Independence.Lints
import CommandTree.Proofs.Independence.Factories
import CommandTree.Proofs.Source.Lines
import CommandTree.Proofs.Source.Programs
import CommandTree.Proofs.Factory.Text
import CommandTree.Proofs.Independence
import CommandTree.Proofs.Namespace.Faults
import CommandTree.Proofs.Namespace.Spans
import CommandTree.Proofs.Rendering
import CommandTree.Proofs.Json.Reading
import CommandTree.Proofs.Manifest.RoundTrip
import CommandTree.Proofs.Namespace.Aliases
import CommandTree.Proofs.Namespace.Segments
import CommandTree.Proofs.Assembly.Aliasing
import CommandTree.Proofs.Assembly.Origins
import CommandTree.Proofs.Lints.Duplicates
import CommandTree.Proofs.Lints.Leaves
import CommandTree.Proofs.Assembly.Bindings
import CommandTree.Proofs.Factory.ForeignBindings
import CommandTree.Proofs.Rendering.Carets
import CommandTree.Proofs.Assembly.Handles
import CommandTree.Proofs.Text.Literals
import CommandTree.Proofs.Role.Wrappers
import CommandTree.Proofs.Namespace.Pieces
import CommandTree.Proofs.Factory.Writing
