import CommandTree.Element
import CommandTree.Text.Span

/-!
# Diagnostics

A diagnostic is a message about an element. It may show a namespace with the bytes that the
message is about, other elements that are involved, and notes. An error stops the generation
of source; a warning does not.
-/

namespace CommandTree

open Text (Span)

/-- What a diagnostic is about. -/
inductive DiagnosticKind
  /-- A namespace is malformed. -/
  | lex
  /-- A declaration contradicts an earlier one. -/
  | mergeConflict
  /-- A binding names a command that does not exist. -/
  | unresolvedBinding
  /-- A role of a command is bound more than once. -/
  | duplicateBinding
  /-- A bound element is not public and immutable. -/
  | modifier
  /-- An element cannot be bound, or not there. -/
  | invalidBinding
  /-- An argument has no type. -/
  | missingType
  /-- A command without subcommands is not executed. -/
  | unexecuted
  /-- The source could not be generated. -/
  | internal
  deriving DecidableEq, Repr, Inhabited

/-- The kind in messages. -/
def DiagnosticKind.describe : DiagnosticKind → String
  | .lex => "lex error"
  | .mergeConflict => "merge conflict"
  | .unresolvedBinding => "unresolved binding"
  | .duplicateBinding => "duplicate binding"
  | .modifier => "invalid modifiers"
  | .invalidBinding => "invalid binding"
  | .missingType => "missing argument type"
  | .unexecuted => "unexecuted command"
  | .internal => "internal compiler error"

/-- Whether source can be generated in spite of a diagnostic. -/
inductive Severity
  | warning
  | error
  deriving DecidableEq, Repr, Inhabited

/-- The severity in messages. -/
def Severity.describe : Severity → String
  | .warning => "warning"
  | .error => "error"

/-- A namespace and some of its bytes. -/
structure Snippet where
  text : String
  span : Span
  deriving DecidableEq, Repr, Inhabited

/-- Another element that a diagnostic is about. -/
structure Label where
  site : Element
  message : String
  deriving DecidableEq, Repr, Inhabited

/-- A message about the element `site`. -/
structure Diagnostic where
  kind : DiagnosticKind
  severity : Severity
  site : Element
  snippet : Option Snippet := none
  message : String
  labels : List Label := []
  notes : List String := []
  deriving DecidableEq, Repr, Inhabited

namespace Diagnostic

/-- An error with nothing but a message. -/
def ofError (kind : DiagnosticKind) (site : Element) (message : String) : Diagnostic :=
  { kind, severity := .error, site, message }

/-- A warning with nothing but a message. -/
def ofWarning (kind : DiagnosticKind) (site : Element) (message : String) : Diagnostic :=
  { kind, severity := .warning, site, message }

/-- The diagnostic with a namespace to show. -/
def withSnippet (d : Diagnostic) (text : String) (span : Span) : Diagnostic :=
  { d with snippet := some ⟨text, span⟩ }

/-- The diagnostic is an error. -/
def isError (d : Diagnostic) : Bool :=
  d.severity == .error

/-- One of the diagnostics is an error. -/
def hasErrors (ds : List Diagnostic) : Bool :=
  ds.any isError

/-- The highest severity of the diagnostics. -/
def worst? (ds : List Diagnostic) : Option Severity :=
  if hasErrors ds then some .error
  else if ds.isEmpty then none
  else some .warning

/-- The first line of a diagnostic. -/
def display (d : Diagnostic) : String :=
  d.severity.describe ++ ": " ++ d.kind.describe ++ ": " ++ d.message

end Diagnostic

end CommandTree
