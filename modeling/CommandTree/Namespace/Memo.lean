import CommandTree.Namespace.Token

/-!
# Reading with a memory

The same namespace stands on many declarations. A `Memo` keeps the tokens of each namespace
that was read without a fault. A namespace with faults is read again each time, so that each
of its uses is reported.

`lexAliased` reads a namespace and gives its last word other names. Its faults are those of
the namespace, then those of the aliases, then that the last word is an argument.
-/

namespace CommandTree.Namespace

/-- Namespaces that were read, each with its tokens, the latest first. -/
structure Memo where
  entries : List (String × List Token) := []
  deriving DecidableEq, Repr, Inhabited

namespace Memo

/-- The memory of a reader that has read nothing. -/
def empty : Memo := {}

/-- The tokens of a namespace that was read before. -/
def lookup (m : Memo) (text : String) : Option (List Token) :=
  m.entries.lookup text

/-- The number of namespaces that were read. -/
def size (m : Memo) : Nat :=
  m.entries.length

/-- Nothing was read. -/
def isEmpty (m : Memo) : Bool :=
  m.entries.isEmpty

/-- Keeps the tokens of a namespace. -/
def remember (m : Memo) (text : String) (tokens : List Token) : Memo :=
  ⟨(text, tokens) :: m.entries⟩

/-- Reads a namespace, from memory if it was read before. -/
def lex (m : Memo) (text : String) : Except (List Fault) (List Token) × Memo :=
  match m.lookup text with
  | some tokens => (.ok tokens, m)
  | none =>
    match tokenize text with
    | .ok tokens => (.ok tokens, m.remember text tokens)
    | .error faults => (.error faults, m)

end Memo

/-! ## Aliases -/

/-- A word that can be another name of a literal. -/
def isAliasWord (word : String) : Bool :=
  !word.toList.isEmpty && !word.toList.any Text.isSpace &&
    match Word.read word.toList with
    | .ok identity => identity.kind == .literal
    | .error _ => false

/-- Goes through the aliases of the name `primary?`. `accepted` are those found valid so far.
Gives all valid aliases and the faults of the others. -/
def checkAliases (primary? : Option String) :
    List String → List String → List String × List Fault
  | accepted, [] => (accepted, [])
  | accepted, word :: rest =>
    if isAliasWord word then
      if primary? = some word ∨ word ∈ accepted then
        let (all, faults) := checkAliases primary? accepted rest
        (all, .duplicateAlias word (primary?.getD "") :: faults)
      else
        checkAliases primary? (accepted ++ [word]) rest
    else
      let (all, faults) := checkAliases primary? accepted rest
      (all, .invalidAlias word :: faults)

/-- The tokens with the aliases on the last of them. -/
def aliasLast (aliases : List String) : List Token → List Token
  | [] => []
  | [last] => [{ last with aliases }]
  | token :: rest => token :: aliasLast aliases rest

/-- That the last token is an argument, which has no aliases. -/
def aliasedArgument (tokens : List Token) : List Fault :=
  match tokens.getLast? with
  | some last =>
    if last.identity.kind = .argument then
      [.aliasedArgument last.identity.display last.span]
    else
      []
  | none => []

/-- Gives the last token of a namespace that was read as `lexed` at least one alias. -/
def addAliases (aliases : List String) (lexed : Except (List Fault) (List Token)) :
    Except (List Fault) (List Token) :=
  let (tokens, faults) := match lexed with
    | .ok tokens => (tokens, [])
    | .error faults => ([], faults)
  let primary? := tokens.getLast?.map (·.identity.name)
  let (accepted, aliasFaults) := checkAliases primary? [] aliases
  match faults ++ aliasFaults ++ aliasedArgument tokens with
  | [] => .ok (aliasLast accepted tokens)
  | all => .error all

/-- Reads a namespace whose last word is a literal with these aliases. -/
def Memo.lexAliased (m : Memo) (text : String) (aliases : List String) :
    Except (List Fault) (List Token) × Memo :=
  let (lexed, m) := m.lex text
  if aliases.isEmpty then (lexed, m) else (addAliases aliases lexed, m)

end CommandTree.Namespace
