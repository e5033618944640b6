import CommandTree.Json.Document
import CommandTree.Json.Shortest
import CommandTree.Text.Quoted

/-!
# What can be wrong with a manifest

A manifest is not JSON, or it is JSON that does not describe declarations. A problem of the
second kind has a message.
-/

namespace CommandTree.Manifest

open Json (Binary64 Doc Flaw Number)

/-- What is wrong with a manifest. -/
inductive Problem
  /-- The text is not JSON. -/
  | flaw (flaw : Flaw)
  /-- A value is of the wrong type. -/
  | invalidType (found expected : String)
  /-- An array has too few or too many items. -/
  | invalidLength (count : Nat) (expected : String)
  /-- A choice is none of those there are. -/
  | unknownVariant (name : String) (choices : List String)
  /-- An object lacks a field. -/
  | missingField (name : String)
  /-- An object has a field twice. -/
  | duplicateField (name : String)
  deriving DecidableEq, Repr

/-- A name between backquotes. -/
def ticked (name : String) : String :=
  "`" ++ name ++ "`"

/-- The choices of a value in words. -/
def choiceText : List String → String
  | [] => "there are no variants"
  | [one] => "expected " ++ ticked one
  | [one, other] => "expected " ++ ticked one ++ " or " ++ ticked other
  | choices => "expected one of " ++ ", ".intercalate (choices.map ticked)

/-- The text of a problem. A flaw has none. -/
def Problem.message? : Problem → Option String
  | .flaw _ => none
  | .invalidType found expected => some ("invalid type: " ++ found ++ ", expected " ++ expected)
  | .invalidLength count expected =>
    some ("invalid length " ++ Nat.repr count ++ ", expected " ++ expected)
  | .unknownVariant name choices =>
    some ("unknown variant " ++ ticked name ++ ", " ++ choiceText choices)
  | .missingField name => some ("missing field " ++ ticked name)
  | .duplicateField name => some ("duplicate field " ++ ticked name)

/-- The value, or the flaw as a problem. -/
def ofFlaw {α : Type} : Except Flaw α → Except Problem α
  | .ok a => .ok a
  | .error flaw => .error (.flaw flaw)

/-- A number in words. -/
def numberText : Number → String
  | .natural n => "integer " ++ ticked (Nat.repr n)
  | .negative n => "integer " ++ ticked ("-" ++ Nat.repr n)
  | .float negative magnitude => "floating point " ++ ticked (magnitude.text negative)

/-- A truth value or nothing in words. -/
def wordText : Option Bool → String
  | none => "null"
  | some true => "boolean " ++ ticked "true"
  | some false => "boolean " ++ ticked "false"

/-- The type of a value in words. An array or object is known by its first character. -/
def found : Doc → Except Flaw String
  | .word value => value.map wordText
  | .number value _ => value.map numberText
  | .string value _ => value.map fun s => "string " ++ Text.quote s
  | .array _ _ => .ok "sequence"
  | .object _ _ => .ok "map"
  | .missing flaw => .error flaw

/-- The problem of a value that stands where another type is expected. -/
def mismatch {α : Type} (doc : Doc) (expected : String) : Except Problem α :=
  match found doc with
  | .ok text => .error (.invalidType text expected)
  | .error flaw => .error (.flaw flaw)

end CommandTree.Manifest
