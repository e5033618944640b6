import CommandTree.Element
import CommandTree.Role
import CommandTree.TypeText

/-!
# The role of an element

A method executes. A field has the role that the name of its type stands for. A type has no
role.
-/

namespace CommandTree

/-- Why an element has no role. -/
inductive Unbindable
  | type (name : String)
  | field (text : String)
  deriving DecidableEq, Repr

/-- The text of the reason. -/
def Unbindable.message : Unbindable → String
  | .type name => "\"" ++ name ++ "\" is a type and cannot be bound to a command"
  | .field text => "fields of type \"" ++ text ++ "\" have no binding role"

/-- The role that an element plays when it is bound. -/
def Element.role (names : TypeNames) (e : Element) : Except Unbindable Role :=
  match e.kind with
  | .method => .ok .execution
  | .field type =>
    match names.roleOf (String.ofList (TypeText.head type.toList)) with
    | some role => .ok role
    | none => .error (.field type)
  | .type => .error (.type e.name)

end CommandTree
