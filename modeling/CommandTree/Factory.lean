import CommandTree.Factory.Branch
import CommandTree.Factory.Name
import CommandTree.Factory.Statement

/-!
# Factories

The factory of a scope builds each top-level command of the scope: first the children of a
node, each from its own children on, then the node itself, then it hangs the children under
it. Variables are numbered in the order in which they are built.

Only elements of the scope take part: a binding by an element of another scope on the same
node is that scope's matter.
-/

namespace CommandTree

/-- A function of the generated source that builds the commands of one scope. -/
structure Factory where
  name : String
  /-- The type that the factory takes a value of. -/
  scope : String
  /-- The factory reads a bound element off the value. -/
  usesSource : Bool
  body : List Factory.Statement
  deriving DecidableEq, Repr, Inhabited

namespace Factory

/-- The bindings on a node by elements of the scope. -/
def bound (env : Environment) (scope : Scope) (node : Nat) : List Binding :=
  (env.bindingsOf node).filter (·.site.scope == scope.name)

/-- The element of the scope that has a role on a node. -/
def boundAs (env : Environment) (scope : Scope) (node : Nat) (role : Role) : Option Expr :=
  ((bound env scope node).find? (·.role == role)).map fun b => .ofElement b.site

/-- The calls for the roles that every node can have filled. -/
def commonCalls (env : Environment) (scope : Scope) (node : Nat) : List Call :=
  ((boundAs env scope node .execution).map .executes).toList ++
    ((boundAs env scope node .requirement).map .requires).toList

/-- How a literal is built. No binding that only an argument can have may be on it. -/
def buildLiteral (env : Environment) (scope : Scope) (node : Nat) :
    Except Fault (Builder × List Call) :=
  match (bound env scope node).find? (·.role.isForArgument) with
  | some misplaced =>
    .error ⟨misplaced.site, .misplacedBinding misplaced.role (env.tree.path node)⟩
  | none =>
    let n := env.tree.node node
    .ok (.literal n.identity.name, n.aliases.map .otherName ++ commonCalls env scope node)

/-- How an argument is built. What is bound goes before what is declared. -/
def buildArgument (env : Environment) (scope : Scope) (node : Nat) (info : ArgumentInfo) :
    Except Fault (Builder × List Call) :=
  let n := env.tree.node node
  let suggestions := (boundAs env scope node .suggestions).or (info.suggestions.map .written)
  match (boundAs env scope node .type).or (info.type.map .written) with
  | some type =>
    .ok (.argument n.identity.name type,
      (suggestions.map .suggests).toList ++ commonCalls env scope node)
  | none =>
    .error ⟨n.origin.getD (.ofType scope.name), .missingType (env.tree.path node)⟩

/-- How a node is built. -/
def buildNode (env : Environment) (scope : Scope) (node : Nat) :
    Except Fault (Builder × List Call) :=
  match (env.tree.node node).detail with
  | .argument info => buildArgument env scope node info
  | _ => buildLiteral env scope node

mutual

/-- The statements that build a branch in variables from `next` on, and the variable of its
node, which is the last one. -/
def emitBranch (env : Environment) (scope : Scope) (next : Nat) :
    Branch → Except Fault (List Statement × Nat)
  | .node id children => do
    let (statements, vars, var) ← emitBranches env scope next children
    let (builder, calls) ← buildNode env scope id
    pure (statements ++ .build var (!vars.isEmpty) builder calls :: vars.map (.addChild var),
      var)

/-- The statements that build several branches, the variables of their nodes, and the next
variable. -/
def emitBranches (env : Environment) (scope : Scope) (next : Nat) :
    List Branch → Except Fault (List Statement × List Nat × Nat)
  | [] => pure ([], [], next)
  | first :: rest => do
    let (statements, var) ← emitBranch env scope next first
    let (others, vars, next) ← emitBranches env scope (var + 1) rest
    pure (statements ++ others, var :: vars, next)

end

/-- The statements that build the part of the tree below a top-level command, which must be
in the tree. -/
def emitCommand (env : Environment) (scope : Scope) (next id : Nat) :
    Except Fault (List Statement × Nat) :=
  if env.tree.contains id then
    emitBranch env scope next (branch env.tree scope id)
  else
    .error ⟨scope.site, .dangling id⟩

/-- The statements that build top-level commands in variables from `next` on and put them
into the result. -/
def emitCommands (env : Environment) (scope : Scope) (next : Nat) :
    List Nat → Except Fault (List Statement)
  | [] => pure []
  | id :: rest => do
    let (statements, var) ← emitCommand env scope next id
    let others ← emitCommands env scope (var + 1) rest
    pure (statements ++ .insert var :: others)

/-- An element of the scope is bound to a node of the scope. -/
def hasBinding (env : Environment) (scope : Scope) : Bool :=
  env.bindings.any fun b => b.site.scope == scope.name && scope.contains b.node

/-- The factory of a scope. -/
def ofScope (env : Environment) (scope : Scope) (name : String) : Except Fault Factory := do
  let body ← emitCommands env scope 0 scope.commands
  pure { name, scope := scope.name, usesSource := hasBinding env scope, body }

/-- The factories of all scopes. -/
def ofEnvironment (suffix : String) (env : Environment) : Except Fault (List Factory) := do
  let names ← names suffix env.scopes
  (env.scopes.zip names).mapM fun (scope, name) => ofScope env scope name

end Factory

end CommandTree
