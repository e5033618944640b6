import CommandTree.Json.Value
import CommandTree.Manifest

/-!
# Writing manifests

`Manifest.write` is the text of a manifest. Every field is written by its name, apart from an
owner or suggestions that are absent, and a directive starts with its kind.
-/

namespace CommandTree.Manifest

open Json (Value)

/-! ## Settings -/

/-- Generation settings as a value. -/
def generationValue (s : GenerationSettings) : Value :=
  .object [("runtime", .string s.runtime), ("sender", .string s.sender),
    ("suffix", .string s.suffix)]

/-- Type names as a value. -/
def typeNamesValue (t : TypeNames) : Value :=
  .object [("argument_type", .string t.argumentType), ("execution", .string t.execution),
    ("requirement", .string t.requirement), ("suggestions", .string t.suggestions)]

/-- Settings as a value. -/
def settingsValue (s : Settings) : Value :=
  .object [("generation", generationValue s.generation), ("types", typeNamesValue s.types)]

/-! ## Declarations -/

/-- A field that is left out if it is absent. -/
def optionalEntry (name : String) (value : Option String) : List (String × Value) :=
  match value with
  | some s => [(name, .string s)]
  | none => []

/-- The kind of an element as a value. -/
def elementKindValue : ElementKind → Value
  | .type => .string "type"
  | .field type => .object [("field", .object [("ty", .string type)])]
  | .method => .string "method"

/-- A visibility as a value. -/
def visibilityValue : Visibility → Value
  | .pub => .string "public"
  | .restricted => .string "restricted"
  | .priv => .string "private"

/-- A mutability as a value. -/
def mutabilityValue : Mutability → Value
  | .immutable => .string "immutable"
  | .mutable => .string "mutable"

/-- An element as a value. -/
def elementValue (e : Element) : Value :=
  .object (optionalEntry "owner" e.owner ++
    [("name", .string e.name), ("kind", elementKindValue e.kind),
      ("visibility", visibilityValue e.visibility),
      ("mutability", mutabilityValue e.mutability)])

/-- A directive as a value. -/
def directiveValue : Directive → Value
  | .command path => .object [("kind", .string "command"), ("path", .string path)]
  | .bind path => .object [("kind", .string "bind"), ("path", .string path)]
  | .literal segments aliases =>
    .object [("kind", .string "literal"), ("namespace", .ofStrings segments),
      ("aliases", .ofStrings aliases)]
  | .argument segments type suggestions =>
    .object ([("kind", .string "argument"), ("namespace", .ofStrings segments),
      ("type", .string type)] ++ optionalEntry "suggestions" suggestions)

/-- A declaration as a value. -/
def declarationValue (d : Declaration) : Value :=
  .object [("element", elementValue d.element), ("annotation", directiveValue d.directive)]

/-! ## Manifests -/

/-- A manifest as a value. -/
def value (m : Manifest) : Value :=
  .object [("config", settingsValue m.settings),
    ("declarations", .array (m.declarations.map declarationValue))]

/-- The text of a manifest. -/
def write (m : Manifest) : String :=
  String.ofList m.value.text

end CommandTree.Manifest
