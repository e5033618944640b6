import CommandTree.Declaration
import CommandTree.Manifest.Form
import CommandTree.Settings

/-!
# Decoding settings and declarations

The forms of the values in a manifest. A directive is an object whose key `kind` says which
directive it is, wherever the key stands, or an array with the kind in front. Since the kind may
come last, the other values are kept until it is known.
-/

namespace CommandTree.Manifest

open Json (Doc Flaw)

/-- The value of a field, or the problem that it is absent. -/
def require {α : Type} (value : Option α) (absent : Problem) : Except Problem α :=
  match value with
  | some a => .ok a
  | none => .error absent

/-- A field with a string. -/
def stringField {σ : Type} (name : String) (get : σ → Option String)
    (set : σ → String → σ) : Field σ where
  name
  isSet s := (get s).isSome
  decode _ doc s := (decodeString doc).map (set s)

/-! ## Settings -/

/-- Generation settings as far as they are given. -/
structure GenerationFields where
  runtime : Option String := none
  sender : Option String := none
  suffix : Option String := none

/-- The form of generation settings. Each field has a default. -/
def generationForm : Form GenerationFields GenerationSettings where
  expected := "struct GenerationConfig"
  fields :=
    [stringField "runtime" (·.runtime) fun s x => { s with runtime := some x },
      stringField "sender" (·.sender) fun s x => { s with sender := some x },
      stringField "suffix" (·.suffix) fun s x => { s with suffix := some x }]
  start := {}
  finish _ s :=
    let d : GenerationSettings := {}
    .ok {
      runtime := s.runtime.getD d.runtime
      sender := s.sender.getD d.sender
      suffix := s.suffix.getD d.suffix }

/-- Type names as far as they are given. -/
structure TypeNameFields where
  argumentType : Option String := none
  execution : Option String := none
  requirement : Option String := none
  suggestions : Option String := none

/-- The form of type names. Each field has a default. -/
def typeNamesForm : Form TypeNameFields TypeNames where
  expected := "struct TypeNames"
  fields :=
    [stringField "argument_type" (·.argumentType) fun s x => { s with argumentType := some x },
      stringField "execution" (·.execution) fun s x => { s with execution := some x },
      stringField "requirement" (·.requirement) fun s x => { s with requirement := some x },
      stringField "suggestions" (·.suggestions) fun s x => { s with suggestions := some x }]
  start := {}
  finish _ s :=
    let d : TypeNames := {}
    .ok {
      argumentType := s.argumentType.getD d.argumentType
      execution := s.execution.getD d.execution
      requirement := s.requirement.getD d.requirement
      suggestions := s.suggestions.getD d.suggestions }

/-- Settings as far as they are given. -/
structure SettingsFields where
  generation : Option GenerationSettings := none
  types : Option TypeNames := none

/-- The form of settings. Each field has a default. -/
def settingsForm : Form SettingsFields Settings where
  expected := "struct Config"
  fields :=
    [{ name := "generation"
       isSet := (·.generation.isSome)
       decode := fun room doc s =>
        (generationForm.decode room doc).map fun x => { s with generation := some x } },
      { name := "types"
        isSet := (·.types.isSome)
        decode := fun room doc s =>
          (typeNamesForm.decode room doc).map fun x => { s with types := some x } }]
  start := {}
  finish _ s := .ok { generation := s.generation.getD {}, types := s.types.getD {} }

/-! ## Elements -/

/-- The form of what stands behind the name of a field kind. -/
def fieldKindForm : Form (Option String) ElementKind where
  expected := "struct variant ElementKind::Field"
  fields := [stringField "ty" id fun _ x => some x]
  start := none
  finish absent s := (require s (absent 0)).map .field

/-- The kinds of an element. -/
def elementKinds : List (Variant ElementKind) :=
  [.unit "type" .type,
    { name := "field"
      bare := .error (.invalidType "unit variant" "struct variant")
      payload := fieldKindForm.decode },
    .unit "method" .method]

/-- The visibilities of an element. -/
def visibilities : List (Variant Visibility) :=
  [.unit "public" .pub, .unit "restricted" .restricted, .unit "private" .priv]

/-- The mutabilities of an element. -/
def mutabilities : List (Variant Mutability) :=
  [.unit "immutable" .immutable, .unit "mutable" .mutable]

/-- An element as far as it is given. An owner can be given as nothing. -/
structure ElementFields where
  owner : Option (Option String) := none
  name : Option String := none
  kind : Option ElementKind := none
  visibility : Option Visibility := none
  mutability : Option Mutability := none

/-- The form of an element. It needs a name and a kind. -/
def elementForm : Form ElementFields Element where
  expected := "struct Element"
  fields :=
    [{ name := "owner"
       isSet := (·.owner.isSome)
       decode := fun _ doc s => (decodeString? doc).map fun x => { s with owner := some x } },
      stringField "name" (·.name) fun s x => { s with name := some x },
      { name := "kind"
        isSet := (·.kind.isSome)
        decode := fun room doc s =>
          (decodeVariant elementKinds room doc).map fun x => { s with kind := some x } },
      { name := "visibility"
        isSet := (·.visibility.isSome)
        decode := fun room doc s =>
          (decodeVariant visibilities room doc).map fun x => { s with visibility := some x } },
      { name := "mutability"
        isSet := (·.mutability.isSome)
        decode := fun room doc s =>
          (decodeVariant mutabilities room doc).map fun x => { s with mutability := some x } }]
  start := {}
  finish absent s := do
    let name ← require s.name (absent 1)
    let kind ← require s.kind (absent 2)
    pure {
      owner := s.owner.getD none
      name, kind
      visibility := s.visibility.getD .priv
      mutability := s.mutability.getD .immutable }

/-! ## Directives -/

/-- The fields of any directive, as far as they are given. -/
structure DirectiveFields where
  path : Option String := none
  segments : Option (List String) := none
  aliases : Option (List String) := none
  type : Option String := none
  suggestions : Option (Option String) := none

/-- Strings that were kept. They were counted when they were kept. -/
def decodeStrings : Doc → Except Problem (List String)
  | .array items _ => decodeAll decodeString items
  | doc => mismatch doc "a sequence"

/-- The field with a path. -/
def pathField : Field DirectiveFields :=
  stringField "path" (·.path) fun s x => { s with path := some x }

/-- The field with the segments of a namespace. -/
def segmentsField : Field DirectiveFields where
  name := "namespace"
  isSet s := s.segments.isSome
  decode _ doc s := (decodeStrings doc).map fun x => { s with segments := some x }

/-- The field with aliases. -/
def aliasesField : Field DirectiveFields where
  name := "aliases"
  isSet s := s.aliases.isSome
  decode _ doc s := (decodeStrings doc).map fun x => { s with aliases := some x }

/-- The field with a type. -/
def typeField : Field DirectiveFields :=
  stringField "type" (·.type) fun s x => { s with type := some x }

/-- The field with suggestions. -/
def suggestionsField : Field DirectiveFields where
  name := "suggestions"
  isSet s := s.suggestions.isSome
  decode _ doc s := (decodeString? doc).map fun x => { s with suggestions := some x }

/-- The form of a directive's values. -/
abbrev DirectiveForm := Form DirectiveFields Directive

/-- A path that is a command. -/
def commandForm : DirectiveForm where
  expected := "struct variant Annotation::Command"
  fields := [pathField]
  start := {}
  finish absent s := (require s.path (absent 0)).map .command

/-- A path that an element is bound to. -/
def bindForm : DirectiveForm where
  expected := "struct variant Annotation::Bind"
  fields := [pathField]
  start := {}
  finish absent s := (require s.path (absent 0)).map .bind

/-- A literal and its aliases. -/
def literalForm : DirectiveForm where
  expected := "struct variant Annotation::Literal"
  fields := [segmentsField, aliasesField]
  start := {}
  finish absent s := do
    let segments ← require s.segments (absent 0)
    pure (.literal segments (s.aliases.getD []))

/-- An argument with its type. -/
def argumentForm : DirectiveForm where
  expected := "struct variant Annotation::Argument"
  fields := [segmentsField, typeField, suggestionsField]
  start := {}
  finish absent s := do
    let segments ← require s.segments (absent 0)
    let type ← require s.type (absent 1)
    pure (.argument segments type (s.suggestions.getD none))

/-- The forms of directives by their kind. -/
def directiveForms : List (String × DirectiveForm) :=
  [("command", commandForm), ("bind", bindForm), ("literal", literalForm),
    ("argument", argumentForm)]

/-- The form that the kind of a directive stands for. -/
def decodeKind (doc : Doc) : Except Problem DirectiveForm := do
  let name ← decodeIdentifier doc
  match directiveForms.lookup name with
  | some form => .ok form
  | none => .error (.unknownVariant name (directiveForms.map (·.1)))

/-- Goes through the entries of a directive: reads its kind, and keeps the others. -/
def keepEntries (room : Nat) : List (Doc × Doc) → Option DirectiveForm →
    Except Problem (Option DirectiveForm × List (Doc × Doc))
  | [], form? => .ok (form?, [])
  | (key, value) :: rest, form? => do
    let name ← ofFlaw key.keyText
    if name = "kind" then
      if form?.isSome then
        .error (.duplicateField "kind")
      else
        let form ← decodeKind value
        keepEntries room rest (some form)
    else
      ofFlaw (value.check room)
      let (form?, kept) ← keepEntries room rest form?
      pure (form?, (key, value) :: kept)

/-- A directive from kept items. -/
def DirectiveForm.ofKeptItems (form : DirectiveForm) (items : List Doc) :
    Except Problem Directive := do
  let (s, rest) ← decodeItems 0 form.fields items form.start
  if rest.isEmpty then
    form.ofItems s
  else
    let taken := items.length - rest.length
    .error (.invalidLength items.length (elementCount taken ++ " in sequence"))

/-- A directive. -/
def decodeDirective (room : Nat) : Doc → Except Problem Directive
  | .array [] ending =>
    enter room fun _ => do
      decodeEnding ending
      .error (.missingField "kind")
  | .array (kind :: items) ending => do
    let form ← enter room fun room => do
      let form ← decodeKind kind
      ofFlaw (Doc.checkItems room items)
      decodeEnding ending
      pure form
    DirectiveForm.ofKeptItems form items
  | .object entries ending => do
    let (form?, kept) ← enter room fun room => do
      let kept ← keepEntries room entries none
      decodeEnding ending
      pure kept
    match form? with
    | some form => form.ofEntries 0 kept none
    | none => .error (.missingField "kind")
  | doc => mismatch doc "internally tagged enum Annotation"

/-! ## Declarations -/

/-- A declaration as far as it is given. -/
structure DeclarationFields where
  element : Option Element := none
  directive : Option Directive := none

/-- The form of a declaration. -/
def declarationForm : Form DeclarationFields Declaration where
  expected := "struct Declaration"
  fields :=
    [{ name := "element"
       isSet := (·.element.isSome)
       decode := fun room doc s =>
        (elementForm.decode room doc).map fun x => { s with element := some x } },
      { name := "annotation"
        isSet := (·.directive.isSome)
        decode := fun room doc s =>
          (decodeDirective room doc).map fun x => { s with directive := some x } }]
  start := {}
  finish absent s := do
    let element ← require s.element (absent 0)
    let directive ← require s.directive (absent 1)
    pure { element, directive }

end CommandTree.Manifest
