import CommandTree.Environment

/-!
# Arguments have a type, and only arguments do

Each argument of a scope needs a type: one that is declared, or one that an element of the
scope is bound as. If there are both, the bound one is used, with a warning. A literal can
have neither a type nor suggestions bound.
-/

namespace CommandTree.Lint

/-- The first binding of a type on a node by an element of the scope `name`. -/
def boundType (env : Environment) (name : String) (node : Nat) : Option Binding :=
  (env.bindingsOf node).find? fun b => b.role == .type && b.site.scope == name

/-- Checks the type of one node of a scope. -/
def checkType (env : Environment) (scope : Scope) (node : Nat) : List Diagnostic :=
  match (env.tree.node node).detail with
  | .argument info =>
    match info.type, boundType env scope.name node with
    | none, none =>
      [.ofError .missingType scope.site
        ("\"" ++ env.tree.path node ++ "\" has no argument type")]
    | some declared, some b =>
      [{ Diagnostic.ofWarning .invalidBinding b.site
          ("\"" ++ env.tree.path node ++ "\" already declares type \"" ++ declared ++ "\"") with
        notes := ["the bound type is used"] }]
    | _, _ => []
  | _ => []

/-- Checks that a binding is not one that only an argument can have. -/
def checkPlace (env : Environment) (b : Binding) : List Diagnostic :=
  if b.role.isForArgument && (env.tree.node b.node).identity.kind == .literal then
    [.ofError .invalidBinding b.site
      (b.role.describe ++ " cannot be bound to literal \"" ++ env.tree.path b.node ++ "\"")]
  else
    []

/-- Checks the types of all arguments of all scopes, and then all bindings. -/
def argumentType (env : Environment) : List Diagnostic :=
  (env.scopes.flatMap fun scope => scope.nodes.flatMap (checkType env scope)) ++
    env.bindings.flatMap (checkPlace env)

end CommandTree.Lint
