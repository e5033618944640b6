import CommandTree.Declaration
import CommandTree.Diagnostic
import CommandTree.Namespace.Memo
import CommandTree.Tree.Node

/-!
# The way a declaration names

Each directive names a way down the command tree: the tokens of a namespace, and, if it
declares an argument, what it says of the last token. `readRoute` reads it, or gives the
diagnostics that say why it cannot be read.
-/

namespace CommandTree

open Namespace (Fault Memo Token joinSegments segmentText)

/-- The tokens of a namespace with its text, and what is said of an argument at its end. -/
structure Route where
  text : String
  tokens : List Token
  info : Option ArgumentInfo := none
  deriving DecidableEq, Repr, Inhabited

/-- The diagnostic for a fault of the namespace `text`. -/
def Diagnostic.ofFault (site : Element) (text : String) (fault : Fault) : Diagnostic :=
  let d := ofError .lex site fault.message
  match fault.span? with
  | some span => d.withSnippet text span
  | none => d

namespace Route

/-- The route of a namespace that was read as `lexed`. -/
def ofLexed (site : Element) (text : String) (lexed : Except (List Fault) (List Token)) :
    Except (List Diagnostic) Route :=
  match lexed with
  | .ok tokens => .ok { text, tokens }
  | .error faults => .error (faults.map (.ofFault site text))

/-- The namespace of several segments. -/
def ofSegments (site : Element) (segments : List String) : Except (List Diagnostic) String :=
  match joinSegments segments with
  | .ok text => .ok text
  | .error faults => .error (faults.map (.ofFault site (segmentText segments)))

/-- The last token must be a literal. -/
def requireLiteral (site : Element) (route : Route) : Except (List Diagnostic) Route :=
  match route.tokens.getLast? with
  | some last =>
    if last.identity.kind = .argument then
      .error [(Diagnostic.ofError .lex site
        ("\"" ++ last.identity.display ++ "\" is declared as a literal")).withSnippet
          route.text last.span]
    else
      .ok route
  | none => .ok route

/-- Makes the last token an argument, whether or not it stands between brackets. -/
def nameArgument : List Token → List Token
  | [] => []
  | [last] => [{ last with identity := .argument last.identity.name }]
  | token :: rest => token :: nameArgument rest

/-- The route to an argument that is declared with `info`. -/
def toArgument (info : ArgumentInfo) (route : Route) : Route :=
  { route with tokens := nameArgument route.tokens, info := some info }

end Route

/-- Reads the way that a directive names. -/
def readRoute (site : Element) (directive : Directive) (memo : Memo) :
    Except (List Diagnostic) Route × Memo :=
  match directive with
  | .command path | .bind path =>
    let (lexed, memo) := memo.lex path
    (Route.ofLexed site path lexed, memo)
  | .literal segments aliases =>
    match Route.ofSegments site segments with
    | .error ds => (.error ds, memo)
    | .ok text =>
      let (lexed, memo) := memo.lexAliased text aliases
      ((Route.ofLexed site text lexed).bind (Route.requireLiteral site), memo)
  | .argument segments type suggestions =>
    match Route.ofSegments site segments with
    | .error ds => (.error ds, memo)
    | .ok text =>
      let (lexed, memo) := memo.lex text
      ((Route.ofLexed site text lexed).map (Route.toArgument ⟨some type, suggestions⟩), memo)

end CommandTree
