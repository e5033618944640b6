import CommandTree.Manifest.Problem

/-!
# Forms of values

How values of a manifest are written. A record is an object with its fields by name, in any
order, or an array of its fields in their order; trailing fields that have a default may be
left out. A choice is its name, or an object with its name as the only key.

Decoders go through a document from left to right and stop at the first problem. They also
count how deep arrays and objects are nested: `room` is what is left of the limit.
-/

namespace CommandTree.Manifest

open Json (Doc Flaw)

/-! ## Simple values -/

/-- A string. -/
def decodeString : Doc → Except Problem String
  | .string value _ => ofFlaw value
  | doc => mismatch doc "a string"

/-- A string or nothing. -/
def decodeString? : Doc → Except Problem (Option String)
  | .word (.ok none) => .ok none
  | doc => (decodeString doc).map some

/-- Nothing. -/
def decodeNull : Doc → Except Problem Unit
  | .word (.ok none) => .ok ()
  | doc => mismatch doc "unit"

/-- The end of an array or object. -/
def decodeEnding (ending : Option Flaw) : Except Problem Unit :=
  ofFlaw (Doc.skipEnding ending)

/-- Goes into an array or object. -/
def enter {α : Type} (room : Nat) (body : Nat → Except Problem α) : Except Problem α :=
  match room with
  | 0 => .error (.flaw .malformed)
  | room + 1 => body room

/-- The items of an array. -/
def decodeAll {α : Type} (item : Doc → Except Problem α) : List Doc → Except Problem (List α)
  | [] => .ok []
  | doc :: rest => do
    let a ← item doc
    let as ← decodeAll item rest
    pure (a :: as)

/-- An array of values of one type. -/
def decodeList {α : Type} (room : Nat) (item : Nat → Doc → Except Problem α) :
    Doc → Except Problem (List α)
  | .array items ending =>
    enter room fun room => do
      let values ← decodeAll (item room) items
      decodeEnding ending
      pure values
  | doc => mismatch doc "a sequence"

/-! ## Records -/

/-- A field of a record of type `σ` that is filled step by step. -/
structure Field (σ : Type) where
  name : String
  isSet : σ → Bool
  decode : Nat → Doc → σ → Except Problem σ

/-- A record: its name, its fields in order, the record without any field, and how it is
completed. To complete it one must say what the problem is if the field at an index is
absent. -/
structure Form (σ α : Type) where
  expected : String
  fields : List (Field σ)
  start : σ
  finish : (Nat → Problem) → σ → Except Problem α

/-- A number of items in words. -/
def elementCount (n : Nat) : String :=
  if n = 1 then "1 element" else Nat.repr n ++ " elements"

/-- Fills fields from the items of an array, and gives the items left over. -/
def decodeItems {σ : Type} (room : Nat) :
    List (Field σ) → List Doc → σ → Except Problem (σ × List Doc)
  | field :: fields, item :: items, s => do
    let s ← field.decode room item s
    decodeItems room fields items s
  | _, items, s => .ok (s, items)

/-- Fills fields from the entries of an object. Unknown fields are passed over. -/
def decodeEntries {σ : Type} (room : Nat) (fields : List (Field σ)) :
    List (Doc × Doc) → σ → Except Problem σ
  | [], s => .ok s
  | (key, value) :: rest, s => do
    let name ← ofFlaw key.keyText
    match fields.find? (·.name == name) with
    | some field =>
      if field.isSet s then
        .error (.duplicateField name)
      else
        let s ← field.decode room value s
        decodeEntries room fields rest s
    | none =>
      ofFlaw value.skip
      decodeEntries room fields rest s

namespace Form

variable {σ α : Type}

/-- An array is too short. -/
def tooShort (form : Form σ α) (index : Nat) : Problem :=
  .invalidLength index (form.expected ++ " with " ++ elementCount form.fields.length)

/-- An object lacks a field. -/
def lacks (form : Form σ α) (index : Nat) : Problem :=
  .missingField ((form.fields[index]?.map (·.name)).getD "")

/-- Completes a record from the items of an array. -/
def ofItems (form : Form σ α) (s : σ) : Except Problem α :=
  form.finish form.tooShort s

/-- A record from the entries of an object. -/
def ofEntries (form : Form σ α) (room : Nat) (entries : List (Doc × Doc))
    (ending : Option Flaw) : Except Problem α := do
  let s ← decodeEntries room form.fields entries form.start
  decodeEnding ending
  form.finish form.lacks s

/-- A record. An array with more items than there are fields is not taken for JSON. -/
def decode (form : Form σ α) (room : Nat) : Doc → Except Problem α
  | .array items ending =>
    enter room fun room => do
      let (s, rest) ← decodeItems room form.fields items form.start
      if !rest.isEmpty then
        .error (.flaw .malformed)
      else
        decodeEnding ending
        form.ofItems s
  | .object entries ending => enter room fun room => form.ofEntries room entries ending
  | doc => mismatch doc form.expected

end Form

/-! ## Choices -/

/-- A choice: its name, its value if only the name stands there, and its value from what
stands behind its name. -/
structure Variant (α : Type) where
  name : String
  bare : Except Problem α
  payload : Nat → Doc → Except Problem α

/-- A choice that is only a name. -/
def Variant.unit {α : Type} (name : String) (value : α) : Variant α :=
  ⟨name, .ok value, fun _ doc => (decodeNull doc).map fun _ => value⟩

/-- The name of a choice where any value can stand. -/
def decodeIdentifier : Doc → Except Problem String
  | .string value _ => ofFlaw value
  | doc => mismatch doc "variant identifier"

/-- The choice with this name. -/
def findVariant {α : Type} (variants : List (Variant α)) (name : String) :
    Except Problem (Variant α) :=
  match variants.find? (·.name == name) with
  | some v => .ok v
  | none => .error (.unknownVariant name (variants.map (·.name)))

/-- One of several choices. A value that can be none of them is not taken for JSON, and
neither is an object that has not exactly one key. -/
def decodeVariant {α : Type} (variants : List (Variant α)) (room : Nat) :
    Doc → Except Problem α
  | .string value _ => do
    let name ← ofFlaw value
    let v ← findVariant variants name
    v.bare
  | .object ((key, value) :: rest) ending =>
    enter room fun room => do
      let name ← ofFlaw key.keyText
      let v ← findVariant variants name
      let a ← v.payload room value
      if rest.isEmpty then
        decodeEnding ending
        pure a
      else
        .error (.flaw .malformed)
  | .object [] ending =>
    enter room fun _ => .error (.flaw (ending.getD .malformed))
  | .missing flaw => .error (.flaw flaw)
  | _ => .error (.flaw .malformed)

end CommandTree.Manifest
