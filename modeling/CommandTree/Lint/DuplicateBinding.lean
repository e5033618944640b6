import CommandTree.Environment

/-!
# One binding for each role

A role of a command may be bound once. Each binding of a role that is bound more often is
reported, and it names the other elements that are bound there.
-/

namespace CommandTree.Lint

/-- The bindings of one role on a node. -/
def boundAs (env : Environment) (node : Nat) (role : Role) : List Binding :=
  (env.bindingsOf node).filter (·.role == role)

/-- Labels for the bindings by other elements than `b`'s. -/
def otherSites (bound : List Binding) (b : Binding) : List Label :=
  (bound.filter (·.site != b.site)).map fun other => ⟨other.site, "also bound here"⟩

/-- Reports each binding of a role that is bound more than once on a node. -/
def duplicatesOf (env : Environment) (node : Nat) (role : Role) : List Diagnostic :=
  let bound := boundAs env node role
  if bound.length < 2 then
    []
  else
    bound.map fun b =>
      { Diagnostic.ofError .duplicateBinding b.site
          (role.describe ++ " is already bound to \"" ++ env.tree.path node ++ "\"") with
        labels := otherSites bound b }

/-- Reports each role of each command that is bound more than once. -/
def duplicateBinding (env : Environment) : List Diagnostic :=
  env.tree.commands.flatMap fun node => Role.all.flatMap (duplicatesOf env node)

end CommandTree.Lint
