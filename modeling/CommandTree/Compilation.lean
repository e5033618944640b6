import CommandTree.Assembly
import CommandTree.Factory.Print
import CommandTree.Lint

/-!
# Compiling declarations

A round assembles the declarations, runs the lints and, if nothing is an error, generates
source. A round that fails gives all its diagnostics, the warnings too.
-/

namespace CommandTree

/-- What a round that succeeds gives. -/
structure Output where
  source : String
  warnings : List Diagnostic
  deriving DecidableEq, Repr, Inhabited

/-- The source of an environment. -/
def Environment.generate (settings : GenerationSettings) (env : Environment) :
    Except Factory.Fault String :=
  (Factory.ofEnvironment settings.suffix env).map (Factory.file settings)

/-- All diagnostics of an environment: those of its assembly and those of the lints. -/
def Environment.allDiagnostics (env : Environment) : List Diagnostic :=
  env.diagnostics ++ Lint.run Lint.all env

/-- Runs a round on a list of declarations. -/
def compile (settings : Settings) (ds : List Declaration) : Except (List Diagnostic) Output :=
  let env := Environment.ofDeclarations settings ds
  let diagnostics := env.allDiagnostics
  if Diagnostic.hasErrors diagnostics then
    .error diagnostics
  else
    match env.generate settings.generation with
    | .ok source => .ok ⟨source, diagnostics⟩
    | .error fault =>
      .error (diagnostics ++ [.ofError .internal fault.site fault.cause.message])

end CommandTree
