import CommandTree.Environment

/-!
# Leaves are executed

A command that has no subcommand and that nothing executes does nothing. The element that
first declared it gets a warning.
-/

namespace CommandTree.Lint

/-- The warning for a leaf that nothing executes. -/
def checkLeaf (env : Environment) (node : Nat) : Option Diagnostic :=
  let n := env.tree.node node
  if n.children.isEmpty && (env.bindingFor node .execution).isNone then
    n.origin.map fun site =>
      .ofWarning .unexecuted site
        ("\"" ++ env.tree.path node ++ "\" is a leaf but has no execution bound")
  else
    none

/-- Warns of each leaf that nothing executes. -/
def unexecuted (env : Environment) : List Diagnostic :=
  env.tree.commands.filterMap (checkLeaf env)

end CommandTree.Lint
