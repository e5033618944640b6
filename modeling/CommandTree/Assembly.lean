import CommandTree.Assembly.Place
import CommandTree.Role.Capture

/-!
# Assembling declarations

A list of declarations is assembled in two passes: first the structural declarations, in
order, and then the bindings, in order. So a binding may stand before the command that it
names. A binding sees only the commands of its own scope.
-/

namespace CommandTree

open Namespace (Token)

namespace Environment

/-- The child of a node with this identity, if the scope of `site` has it. -/
def step? (env : Environment) (site : Element) (node : Nat) (identity : Identity) :
    Option Nat :=
  match env.tree.child node identity, env.scope? site.scope with
  | some child, some scope =>
    let child := env.tree.primary child
    if scope.contains child then some child else none
  | _, _ => none

/-- Goes down the tree inside the scope of `site`. Fails at the first token that leads
nowhere. -/
def resolve (env : Environment) (site : Element) : List Token → Nat → Except Token Nat
  | [], node => .ok node
  | token :: rest, node =>
    match env.step? site node token.identity with
    | some child => resolve env site rest child
    | none => .error token

/-- Reports that a token of a binding's path leads nowhere. -/
def reportUnresolved (env : Environment) (site : Element) (text : String) (token : Token) :
    Environment :=
  env.report ((Diagnostic.ofError .unresolvedBinding site
    ("\"" ++ token.identity.display ++ "\" does not exist in \"" ++ text ++ "\"")).withSnippet
      text token.span)

/-- Binds the element of one declaration to the command that it names. -/
def bindElement (names : TypeNames) (env : Environment) (d : Declaration) : Environment :=
  match d.element.role names with
  | .error reason => env.report (.ofError .invalidBinding d.element reason.message)
  | .ok role =>
    match readRoute d.element d.directive env.memo with
    | (.error ds, memo) => { env with memo }.reportAll ds
    | (.ok route, memo) =>
      let env := { env with memo }
      match env.resolve d.element route.tokens 0 with
      | .ok node => env.bind node role d.element
      | .error token => env.reportUnresolved d.element route.text token

/-- Adds declarations to an environment. -/
def declare (names : TypeNames) (env : Environment) (ds : List Declaration) : Environment :=
  let env := (ds.filter (·.directive.isStructural)).foldl place env
  (ds.filter (!·.directive.isStructural)).foldl (bindElement names) env

/-- The environment of a list of declarations. -/
def ofDeclarations (settings : Settings) (ds : List Declaration) : Environment :=
  declare settings.types empty ds

end Environment

end CommandTree
