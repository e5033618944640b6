import CommandTree.Element

/-!
# Statements of a factory

A factory is a function of the generated source. It builds the commands of one scope, each
in a variable of its own that is known by its number, hangs the children under their parents
and puts the top-level commands into its result. Here its body is a list of statements; how
they are written is a matter of printing.
-/

namespace CommandTree.Factory

/-- A value in the generated source. -/
inductive Expr
  /-- An expression as it was declared. -/
  | written (text : String)
  /-- A field of the annotated type's value. -/
  | field (name : String)
  /-- A call of a method of the annotated type's value. -/
  | method (name : String)
  deriving DecidableEq, Repr, Inhabited

/-- The value of a bound element. -/
def Expr.ofElement (site : Element) : Expr :=
  match site.kind with
  | .method => .method site.name
  | _ => .field site.name

/-- How a node is begun. -/
inductive Builder
  | literal (name : String)
  | argument (name : String) (type : Expr)
  deriving DecidableEq, Repr, Inhabited

/-- What is added to a node before it is built. -/
inductive Call
  | otherName (word : String)
  | suggests (value : Expr)
  | executes (value : Expr)
  | requires (value : Expr)
  deriving DecidableEq, Repr, Inhabited

/-- A statement of a factory. -/
inductive Statement
  /-- Builds a node in a new variable, which may change later. -/
  | build (var : Nat) (mutable : Bool) (builder : Builder) (calls : List Call)
  /-- Moves a node under another. -/
  | addChild (parent child : Nat)
  /-- Moves a node into the result. -/
  | insert (var : Nat)
  deriving DecidableEq, Repr, Inhabited

/-- The statement begins a literal. -/
def Statement.isLiteral : Statement → Bool
  | .build _ _ (.literal _) _ => true
  | _ => false

/-- The statement begins an argument. -/
def Statement.isArgument : Statement → Bool
  | .build _ _ (.argument _ _) _ => true
  | _ => false

end CommandTree.Factory
