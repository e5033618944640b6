/-!
# What a node of a command tree is called

A command line is matched word by word. A literal matches its own name; an argument stands
for any value and is shown between angle brackets.
-/

namespace CommandTree

/-- What a word of a command matches: itself, or any value. -/
inductive Kind
  | literal
  | argument
  deriving DecidableEq, Repr, Inhabited

/-- The kind in messages. -/
def Kind.describe : Kind → String
  | .literal => "literal"
  | .argument => "argument"

/-- A kind and a name. Siblings of a command tree differ in their identity. -/
structure Identity where
  kind : Kind
  name : String
  deriving DecidableEq, Repr, Inhabited

namespace Identity

/-- The literal with the name `name`. -/
def literal (name : String) : Identity := ⟨.literal, name⟩

/-- The argument with the name `name`. -/
def argument (name : String) : Identity := ⟨.argument, name⟩

/-- The word that stands for the identity in a namespace. -/
def display (i : Identity) : String :=
  match i.kind with
  | .literal => i.name
  | .argument => "<" ++ i.name ++ ">"

end Identity

end CommandTree
