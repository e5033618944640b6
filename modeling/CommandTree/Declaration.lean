import CommandTree.Element

/-!
# Declarations

A declaration is a directive on an element. Three directives are *structural*: they add
commands to the tree. The fourth binds its element to a command that exists.
-/

namespace CommandTree

/-- What a directive says of its element. -/
inductive Directive
  /-- The namespace `path` is a command. -/
  | command (path : String)
  /-- The element is bound to the command `path`. -/
  | bind (path : String)
  /-- The namespace of these segments ends in a literal with these other names. -/
  | literal (segments aliases : List String)
  /-- The namespace of these segments ends in an argument of this type. -/
  | argument (segments : List String) (type : String) (suggestions : Option String)
  deriving DecidableEq, Repr, Inhabited

/-- The directive adds commands. -/
def Directive.isStructural : Directive → Bool
  | .bind _ => false
  | _ => true

/-- A directive on an element. -/
structure Declaration where
  element : Element
  directive : Directive
  deriving DecidableEq, Repr, Inhabited

end CommandTree
