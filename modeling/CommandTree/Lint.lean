import CommandTree.Lint.ArgumentType
import CommandTree.Lint.DuplicateBinding
import CommandTree.Lint.PublicFinal
import CommandTree.Lint.Unexecuted

/-!
# Lints

A lint looks at an assembled environment and reports what is wrong with it. All lints run,
whatever the others report.
-/

namespace CommandTree

/-- A check of an environment, with its name. -/
structure Lint where
  name : String
  check : Environment → List Diagnostic

namespace Lint

/-- All lints, in the order of their diagnostics. -/
def all : List Lint :=
  [⟨"duplicate-binding", duplicateBinding⟩, ⟨"public-final-binding", publicFinal⟩,
    ⟨"argument-type", argumentType⟩, ⟨"unexecuted", unexecuted⟩]

/-- The diagnostics of several lints. -/
def run (lints : List Lint) (env : Environment) : List Diagnostic :=
  lints.flatMap fun lint => lint.check env

end Lint

end CommandTree
