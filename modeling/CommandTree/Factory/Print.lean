import CommandTree.Factory
import CommandTree.Settings
import CommandTree.Source
import CommandTree.Text.Quoted

/-!
# Factories as Rust source

The generated file has a header, the imports that it needs, and the factories. Each statement
that builds a node has an empty line before it, and so has the result of a factory.
-/

namespace CommandTree.Factory

open Text (quote)

/-- The name of a variable. -/
def printVar (var : Nat) : String :=
  "command" ++ Nat.repr var

/-- A value. A method is called on a copy of the pointer to the annotated type's value. -/
def Expr.print : Expr → String
  | .written text => text
  | .field name => "source." ++ name ++ ".clone()"
  | .method name =>
    "\x7b let source = Arc::clone(&source); move |context| source." ++ name ++ "(context) \x7d"

/-- The start of a node. -/
def Builder.print : Builder → String
  | .literal name => "Literal::builder(" ++ quote name ++ ")"
  | .argument name type => "Argument::builder(" ++ quote name ++ ", " ++ type.print ++ ")"

/-- A call on a node that is being built. -/
def Call.print : Call → String
  | .otherName word => ".alias(" ++ quote word ++ ")"
  | .suggests value => ".suggests(" ++ value.print ++ ")"
  | .executes value => ".executes(" ++ value.print ++ ")"
  | .requires value => ".requires(" ++ value.print ++ ")"

/-- Prints a statement. -/
def Statement.print (s : Source) : Statement → Source
  | .build var mutable builder calls =>
    let start := if mutable then "let mut " else "let "
    ((((s.blank.line (start ++ printVar var ++ " = " ++ builder.print)).indent).lines
      (calls.map Call.print)).line ".build();").unindent
  | .addChild parent child => s.line (printVar parent ++ ".add_child(" ++ printVar child ++ ");")
  | .insert var =>
    s.line ("commands.insert(" ++ printVar var ++ ".name().to_string(), " ++ printVar var ++ ");")

/-- The name of a factory's parameter. One that is not used starts with an underscore. -/
def parameter (f : Factory) : String :=
  if f.usesSource then "source" else "_source"

/-- The first line of a factory. -/
def signature (sender : String) (f : Factory) : String :=
  "pub fn " ++ f.name ++ "(" ++ f.parameter ++ ": Arc<" ++ f.scope ++
    ">) -> HashMap<String, CommandNode<" ++ sender ++ ">> \x7b"

/-- Prints a factory. -/
def print (sender : String) (s : Source) (f : Factory) : Source :=
  let s := (s.line (f.signature sender)).indent.line "let mut commands = HashMap::new();"
  let s := f.body.foldl Statement.print s
  (s.blank.line "commands").unindent.line "\x7d"

/-- Prints several factories with an empty line behind each. -/
def printAll (sender : String) (fs : List Factory) : Source :=
  fs.foldl (fun s f => (print sender s f).blank) Source.empty

/-- What the generated source imports from the runtime. -/
def imports (fs : List Factory) : List String :=
  let statements := fs.flatMap (·.body)
  (if statements.any Statement.isArgument then ["Argument"] else []) ++ ["CommandNode"] ++
    (if statements.any Statement.isLiteral then ["Literal"] else [])

/-- The first line of a generated file. -/
def header : String :=
  "// @generated by typist. Do not edit."

/-- The generated file. Without factories it has no imports. -/
def file (settings : GenerationSettings) (fs : List Factory) : String :=
  let s := Source.empty.line header
  if fs.isEmpty then
    s.finish
  else
    let s := s.blank.lines ["use std::collections::HashMap;", "use std::sync::Arc;"]
    let s := s.blank.line
      ("use " ++ settings.runtime ++ "::\x7b" ++ ", ".intercalate (imports fs) ++ "\x7d;")
    (s.blank.append (printAll settings.sender fs)).finish

end CommandTree.Factory
