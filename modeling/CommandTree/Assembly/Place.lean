import CommandTree.Assembly.Route
import CommandTree.Environment

/-!
# Placing commands

A structural declaration is merged into the tree from the root down. Each token leads to the
child with its name, which must be of its kind, or to a new child. The walk stops at the
first token that contradicts the tree; a name that cannot be given as an alias is reported,
and the walk goes on.
-/

namespace CommandTree

open Namespace (Memo Token)

namespace Environment

/-- Reports that a token contradicts the tree. -/
def reportConflict (env : Environment) (site : Element) (text : String) (token : Token)
    (message : String) : Environment :=
  env.report ((Diagnostic.ofError .mergeConflict site message).withSnippet text token.span)

/-- Merges a token into the node that has its name. Gives no node if they do not agree. -/
def meet (env : Environment) (site : Element) (text : String) (token : Token) (detail : Detail)
    (existing : Nat) : Environment × Option Nat :=
  let found := (env.tree.node existing).identity
  if found.kind = token.identity.kind then
    match detail with
    | .argument info =>
      let (tree, conflict?) := env.tree.mergeArgument existing info
      let env := { env with tree }
      match conflict? with
      | some conflict =>
        (env.reportConflict site text token
          ("\"" ++ tree.path existing ++ "\": " ++ conflict.message), none)
      | none => (env, some existing)
    | _ => (env, some existing)
  else
    (env.reportConflict site text token
      (token.identity.kind.describe ++ " \"" ++ token.identity.display ++
        "\" conflicts with existing " ++ found.kind.describe ++ " \"" ++
        env.tree.path existing ++ "\""), none)

/-- The node of a token under `parent`: the child with its name, or a new one. -/
def reach (env : Environment) (site : Element) (text : String) (parent : Nat)
    (token : Token) (detail : Detail) : Environment × Option Nat :=
  match env.tree.find parent token.identity.name with
  | some existing => env.meet site text token detail (env.tree.primary existing)
  | none =>
    ({ env with tree := env.tree.insert parent token.identity detail (some site) },
      some env.tree.size)

/-- Gives a node one other name of its token. -/
def addAlias (site : Element) (text : String) (token : Token) (node : Nat)
    (env : Environment) (word : String) : Environment :=
  let (tree, result) := env.tree.addAlias node word
  let env := { env with tree }
  match result with
  | .ok _ => env
  | .error conflict => env.reportConflict site text token conflict.message

/-- What a token says of its node. Only the last token of a route says more than its kind. -/
def detailOf (info : Option ArgumentInfo) (token : Token) (rest : List Token) : Detail :=
  match info, rest with
  | some info, [] => .argument info
  | _, _ => .ofKind token.identity.kind

/-- Merges tokens into the tree below `parent`. Gives the last node, unless a token
contradicts the tree. -/
def walk (site : Element) (text : String) (info : Option ArgumentInfo) :
    List Token → Nat → Environment → Environment × Option Nat
  | [], parent, env => (env, some parent)
  | token :: rest, parent, env =>
    match env.reach site text parent token (detailOf info token rest) with
    | (env, none) => (env, none)
    | (env, some node) =>
      let env := token.aliases.foldl (addAlias site text token node) env
      walk site text info rest node (env.enterScope site node)

/-- Merges one structural declaration. -/
def place (env : Environment) (d : Declaration) : Environment :=
  match readRoute d.element d.directive env.memo with
  | (.error ds, memo) => { env with memo }.reportAll ds
  | (.ok route, memo) =>
    (walk d.element route.text route.info route.tokens 0 { env with memo }).1

end Environment

end CommandTree
