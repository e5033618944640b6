import CommandTree.Element
import CommandTree.Identity

/-!
# Nodes of a command tree

Nodes live in one array, in the order of creation, and name each other by their index there.
The root is 0. A node has its children in an ordered map from identities to nodes. A literal
may have other names: each of them is a node of its own beside the literal, its *alias
entry*, which has the same children.
-/

namespace CommandTree

/-! ## What an argument is known to be -/

/-- The expressions for an argument's type and suggestions, as far as they are declared. -/
structure ArgumentInfo where
  type : Option String := none
  suggestions : Option String := none
  deriving DecidableEq, Repr, Inhabited

/-- Why a declaration cannot be merged into the tree. -/
inductive Conflict
  /-- The argument has another type. -/
  | differentType (existing incoming : String)
  /-- The argument has other suggestions. -/
  | differentSuggestions (existing incoming : String)
  /-- The alias is the name of a sibling. -/
  | takenName (word : String) (existing : Identity)
  deriving DecidableEq, Repr

/-- The text of a conflict. -/
def Conflict.message : Conflict → String
  | .differentType existing incoming =>
    "type is already \"" ++ existing ++ "\" and cannot be redeclared as \"" ++ incoming ++ "\""
  | .differentSuggestions existing incoming =>
    "suggestions is already \"" ++ existing ++ "\" and cannot be redeclared as \"" ++
      incoming ++ "\""
  | .takenName word existing =>
    "alias \"" ++ word ++ "\" collides with existing " ++ existing.kind.describe ++ " \"" ++
      existing.display ++ "\""

namespace ArgumentInfo

/-- The value after a declaration that may give one. Two values must agree. -/
def fill (conflict : String → String → Conflict) :
    Option String → Option String → Except Conflict (Option String)
  | some existing, some incoming =>
    if existing = incoming then .ok (some existing) else .error (conflict existing incoming)
  | none, incoming => .ok incoming
  | existing, none => .ok existing

/-- Fills in the type and then the suggestions. A conflict keeps what was filled before. -/
def merge (info incoming : ArgumentInfo) : ArgumentInfo × Option Conflict :=
  match fill .differentType info.type incoming.type with
  | .error conflict => (info, some conflict)
  | .ok type =>
    match fill .differentSuggestions info.suggestions incoming.suggestions with
    | .error conflict => ({ info with type }, some conflict)
    | .ok suggestions => ({ type, suggestions }, none)

end ArgumentInfo

/-- What a node is. Only an argument has more to say. -/
inductive Detail
  | root
  | literal
  | argument (info : ArgumentInfo)
  deriving DecidableEq, Repr, Inhabited

/-- A new node of a kind. -/
def Detail.ofKind : Kind → Detail
  | .literal => .literal
  | .argument => .argument {}

/-! ## Children -/

/-- The children of a node, in the order in which their identities came. -/
abbrev Children := List (Identity × Nat)

/-- Puts a child under its identity. A child that is there already gives up its place. -/
def Children.insert : Children → Identity → Nat → Children
  | [], identity, child => [(identity, child)]
  | (first, other) :: rest, identity, child =>
    if first = identity then
      (first, child) :: rest
    else
      (first, other) :: Children.insert rest identity child

/-- A node of a command tree. -/
structure Node where
  identity : Identity
  detail : Detail
  parent : Option Nat := none
  children : Children := []
  /-- The bindings made on this node, by their place in the order of binding. -/
  bindings : List Nat := []
  /-- The other names of this node. -/
  aliases : List String := []
  /-- The node that this alias entry stands for. -/
  aliasOf : Option Nat := none
  /-- The alias entries of this node, one for each alias. -/
  entries : List Nat := []
  /-- The element whose declaration made this node. -/
  origin : Option Element := none
  deriving DecidableEq, Repr

namespace Node

/-- The root has an empty name. -/
def root : Node :=
  { identity := .literal "", detail := .root }

instance : Inhabited Node := ⟨root⟩

/-- The node is an alias entry. -/
def isAlias (n : Node) : Bool :=
  n.aliasOf.isSome

/-- The node is an argument. -/
def isArgument (n : Node) : Bool :=
  match n.detail with
  | .argument _ => true
  | _ => false

end Node

end CommandTree
