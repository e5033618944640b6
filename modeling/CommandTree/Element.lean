/-!
# Elements of the annotated program

A declaration stands on an element of the program that uses the commands: a type, or a
method or field of a type. The *scope* of an element is the type it belongs to.
-/

namespace CommandTree

/-- What an element is. A field has the text of its type. -/
inductive ElementKind
  | type
  | field (type : String)
  | method
  deriving DecidableEq, Repr, Inhabited

/-- Who may use an element. -/
inductive Visibility
  | pub
  | restricted
  | priv
  deriving DecidableEq, Repr, Inhabited

/-- Whether an element may change. -/
inductive Mutability
  | immutable
  | mutable
  deriving DecidableEq, Repr, Inhabited

/-- An element of the annotated program. A type has no owner. -/
structure Element where
  owner : Option String := none
  name : String
  kind : ElementKind
  visibility : Visibility := .priv
  mutability : Mutability := .immutable
  deriving DecidableEq, Repr, Inhabited

namespace Element

/-- The type `path` itself. -/
def ofType (path : String) : Element :=
  { name := path, kind := .type, visibility := .pub }

/-- The type that the element belongs to. -/
def scope (e : Element) : String :=
  e.owner.getD e.name

/-- The element in messages. -/
def display (e : Element) : String :=
  match e.owner with
  | some owner => owner ++ "::" ++ e.name
  | none => e.name

/-- A field. -/
def isField (e : Element) : Bool :=
  match e.kind with
  | .field _ => true
  | _ => false

/-- Only a public and immutable element may be bound. -/
def isPublicFinal (e : Element) : Bool :=
  e.visibility == .pub && e.mutability == .immutable

end Element

end CommandTree
