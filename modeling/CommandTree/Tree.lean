import CommandTree.Tree.Node

/-!
# Command trees

A command tree starts as a root and only grows. Every operation that names a node looks
through an alias entry at the node it stands for, so that a node and its alias entries keep
the same children.

A parent is always made before its child, so going up from a node ends at the root.
-/

namespace CommandTree

/-- The nodes of a command tree in the order of creation. -/
structure Tree where
  nodes : Array Node
  deriving DecidableEq, Repr

namespace Tree

/-- The tree that is only a root. -/
def empty : Tree := ⟨#[Node.root]⟩

instance : Inhabited Tree := ⟨empty⟩

/-- The number of nodes, with the root and the alias entries. -/
def size (t : Tree) : Nat :=
  t.nodes.size

/-- The tree is only a root. -/
def isEmpty (t : Tree) : Bool :=
  t.size == 1

/-- The tree has a node `id`. -/
def contains (t : Tree) (id : Nat) : Bool :=
  id < t.size

/-- The node `id`. A node that is not there reads as a root. -/
def node (t : Tree) (id : Nat) : Node :=
  t.nodes.getD id Node.root

/-- Changes the node `id`. -/
def modify (t : Tree) (id : Nat) (f : Node → Node) : Tree :=
  ⟨t.nodes.modify id f⟩

/-- Adds a node that nothing refers to yet. -/
def push (t : Tree) (n : Node) : Tree :=
  ⟨t.nodes.push n⟩

/-! ## Looking up -/

/-- The node that an alias entry stands for. Other nodes stand for themselves. -/
def primary (t : Tree) (id : Nat) : Nat :=
  (t.node id).aliasOf.getD id

/-- The child with this identity. It may be an alias entry. -/
def child (t : Tree) (parent : Nat) (identity : Identity) : Option Nat :=
  (t.node (t.primary parent)).children.lookup identity

/-- The child with this name, the literal before the argument. -/
def find (t : Tree) (parent : Nat) (name : String) : Option Nat :=
  match t.child parent (.literal name) with
  | some id => some id
  | none => t.child parent (.argument name)

/-- All nodes but the root and the alias entries. -/
def commands (t : Tree) : List Nat :=
  (List.range t.size).filter fun id => id != 0 && !(t.node id).isAlias

/-- The identities on the way from the root down to a node. -/
def identities (t : Tree) (id : Nat) : List Identity :=
  if id = 0 then
    []
  else
    match (t.node id).parent with
    | none => [(t.node id).identity]
    | some parent =>
      if _h : parent < id then
        identities t parent ++ [(t.node id).identity]
      else
        [(t.node id).identity]
termination_by id

/-- The namespace of a node. That of the root is empty. -/
def path (t : Tree) (id : Nat) : String :=
  " ".intercalate ((t.identities id).map Identity.display)

/-! ## Growing -/

/-- Puts `child` among the children of a node and of its alias entries. -/
def attach (t : Tree) (parent child : Nat) : Tree :=
  let parent := t.primary parent
  let identity := (t.node child).identity
  (parent :: (t.node parent).entries).foldl
    (fun t target =>
      t.modify target fun n => { n with children := n.children.insert identity child })
    t

/-- Makes a node under `parent`. Its handle is the size of the tree before. -/
def insert (t : Tree) (parent : Nat) (identity : Identity) (detail : Detail)
    (origin : Option Element) : Tree :=
  let parent := t.primary parent
  let id := t.size
  (t.push { identity, detail, parent := some parent, origin }).attach parent id

/-- Makes the alias entry of a node that has a parent. -/
def pushEntry (t : Tree) (id parent : Nat) (word : String) : Tree :=
  let entry := t.size
  let n := t.node id
  let t := t.push {
    identity := .literal word
    detail := .literal
    parent := some parent
    children := n.children
    aliasOf := some id
    origin := n.origin }
  let t := t.modify id fun n =>
    { n with entries := n.entries ++ [entry], aliases := n.aliases ++ [word] }
  t.attach parent entry

/-- Gives a node another name, and says whether it is new. The root has no other name. -/
def addAlias (t : Tree) (id : Nat) (word : String) : Tree × Except Conflict Bool :=
  let id := t.primary id
  if word ∈ (t.node id).aliases then
    (t, .ok false)
  else
    match (t.node id).parent with
    | none => (t, .ok false)
    | some parent =>
      match t.find parent word with
      | some existing => (t, .error (.takenName word (t.node existing).identity))
      | none => (t.pushEntry id parent word, .ok true)

/-- Adds what a declaration says of an argument. Other nodes stay as they are. -/
def mergeArgument (t : Tree) (id : Nat) (incoming : ArgumentInfo) : Tree × Option Conflict :=
  let id := t.primary id
  match (t.node id).detail with
  | .argument info =>
    let (merged, conflict?) := info.merge incoming
    (t.modify id fun n => { n with detail := .argument merged }, conflict?)
  | _ => (t, none)

/-- Records a binding on a node. -/
def bind (t : Tree) (id : Nat) (binding : Nat) : Tree :=
  t.modify (t.primary id) fun n => { n with bindings := n.bindings ++ [binding] }

end Tree

end CommandTree
