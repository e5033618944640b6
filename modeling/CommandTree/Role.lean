import CommandTree.Settings

/-!
# Roles of bindings

An element bound to a command plays one of four roles there: it executes the command, it
decides whether the command may be used, it suggests values of an argument, or it is the
argument's type.
-/

namespace CommandTree

/-- What a bound element does for its command. -/
inductive Role
  | execution
  | requirement
  | suggestions
  | type
  deriving DecidableEq, Repr, Inhabited

namespace Role

/-- All roles, in the order in which they are checked. -/
def all : List Role :=
  [.type, .execution, .requirement, .suggestions]

/-- The role in messages. -/
def display : Role → String
  | .execution => "execution"
  | .requirement => "requirement"
  | .suggestions => "suggestions"
  | .type => "type"

/-- The element that plays the role, at the start of a message. -/
def describe : Role → String
  | .execution => "An Execution<CommandSender>"
  | .requirement => "A Requirement<CommandSender>"
  | .suggestions => "A SuggestionProvider<CommandSender>"
  | .type => "An ArgumentType<?>"

/-- A role that only an argument can have filled. -/
def isForArgument : Role → Bool
  | .type | .suggestions => true
  | .execution | .requirement => false

end Role

/-- The role of a field whose type has the name `name`. An argument type goes before an
execution, that before a requirement, and suggestions come last. -/
def TypeNames.roleOf (names : TypeNames) (name : String) : Option Role :=
  if name = names.argumentType then some .type
  else if name = names.execution then some .execution
  else if name = names.requirement then some .requirement
  else if name = names.suggestions then some .suggestions
  else none

end CommandTree
