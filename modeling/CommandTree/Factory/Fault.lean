import CommandTree.Element
import CommandTree.Role

/-!
# Why no source is generated

Source cannot be generated for an argument without a type, for a literal with a binding that
only an argument can have, for a top-level command that the tree does not have, and for two
scopes whose factories would have the same name.
-/

namespace CommandTree.Factory

/-- What is in the way. -/
inductive Cause
  | missingType (path : String)
  | misplacedBinding (role : Role) (path : String)
  | dangling (node : Nat)
  | nameClash (name : String)
  deriving DecidableEq, Repr

/-- The text of a cause. -/
def Cause.message : Cause → String
  | .missingType path => "argument \"" ++ path ++ "\" has no type"
  | .misplacedBinding role path => role.display ++ " binding on literal \"" ++ path ++ "\""
  | .dangling node => "dangling node handle NodeId(" ++ Nat.repr node ++ ")"
  | .nameClash name => "factory \"" ++ name ++ "\" would be emitted more than once"

/-- What is in the way, and the element it is about. -/
structure Fault where
  site : Element
  cause : Cause
  deriving DecidableEq, Repr

/-- The text of a fault. -/
def Fault.message (f : Fault) : String :=
  f.site.display ++ ": " ++ f.cause.message

end CommandTree.Factory
