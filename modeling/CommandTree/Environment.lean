import CommandTree.Diagnostic
import CommandTree.Namespace.Memo
import CommandTree.Role
import CommandTree.Tree

/-!
# Environments

An environment holds what the declarations seen so far amount to: the command tree, the
bindings, the scopes, the diagnostics and the reader's memory. Nothing is ever taken out of
it.

A *scope* belongs to a type. It has the nodes that the declarations on the type and its
members went through, and the top-level commands among them.
-/

namespace CommandTree

/-- The element `site` plays `role` for a node. -/
structure Binding where
  node : Nat
  role : Role
  site : Element
  deriving DecidableEq, Repr, Inhabited

/-- The list with `a` at its end, unless it has `a`. -/
def insertLast {α : Type} [DecidableEq α] (as : List α) (a : α) : List α :=
  if a ∈ as then as else as ++ [a]

/-- The part of the tree that one type declares. -/
structure Scope where
  name : String
  site : Element
  commands : List Nat := []
  nodes : List Nat := []
  deriving DecidableEq, Repr, Inhabited

namespace Scope

/-- The empty scope of an element's type. An element that has an owner tells only the name
of its type. -/
def ofSite (site : Element) : Scope :=
  { name := site.scope
    site := match site.owner with
      | some owner => .ofType owner
      | none => site }

/-- The scope has the node. -/
def contains (s : Scope) (node : Nat) : Bool :=
  s.nodes.contains node

/-- Adds a node, which may be a top-level command. -/
def add (s : Scope) (node : Nat) (isCommand : Bool) : Scope :=
  { s with
    nodes := insertLast s.nodes node
    commands := if isCommand then insertLast s.commands node else s.commands }

/-- Adds a node to the scope of an element's type, which is made if there is none. -/
def enter (site : Element) (node : Nat) (isCommand : Bool) : List Scope → List Scope
  | [] => [(ofSite site).add node isCommand]
  | s :: rest =>
    if s.name = site.scope then
      s.add node isCommand :: rest
    else
      s :: enter site node isCommand rest

end Scope

/-- What the declarations seen so far amount to. -/
structure Environment where
  tree : Tree := .empty
  bindings : List Binding := []
  scopes : List Scope := []
  diagnostics : List Diagnostic := []
  memo : Namespace.Memo := .empty
  deriving DecidableEq, Repr, Inhabited

namespace Environment

/-- No declaration was seen. -/
def empty : Environment := {}

/-! ## Looking up -/

/-- The bindings on a node, in the order of binding. -/
def bindingsOf (env : Environment) (node : Nat) : List Binding :=
  (env.tree.node (env.tree.primary node)).bindings.filterMap (env.bindings[·]?)

/-- The first binding on a node that has this role. -/
def bindingFor (env : Environment) (node : Nat) (role : Role) : Option Binding :=
  (env.bindingsOf node).find? (·.role == role)

/-- The scope with this name. -/
def scope? (env : Environment) (name : String) : Option Scope :=
  env.scopes.find? (·.name == name)

/-- One of the diagnostics is an error. -/
def hasErrors (env : Environment) : Bool :=
  Diagnostic.hasErrors env.diagnostics

/-! ## Growing -/

/-- Adds a diagnostic. -/
def report (env : Environment) (d : Diagnostic) : Environment :=
  { env with diagnostics := env.diagnostics ++ [d] }

/-- Adds several diagnostics. -/
def reportAll (env : Environment) (ds : List Diagnostic) : Environment :=
  { env with diagnostics := env.diagnostics ++ ds }

/-- Binds an element to a node. -/
def bind (env : Environment) (node : Nat) (role : Role) (site : Element) : Environment :=
  let node := env.tree.primary node
  { env with
    tree := env.tree.bind node env.bindings.length
    bindings := env.bindings ++ [⟨node, role, site⟩] }

/-- Adds a node to the scope of an element. -/
def enterScope (env : Environment) (site : Element) (node : Nat) : Environment :=
  let node := env.tree.primary node
  let isCommand := (env.tree.node node).parent == some 0
  { env with scopes := Scope.enter site node isCommand env.scopes }

end Environment

end CommandTree
