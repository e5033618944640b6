import CommandTree.Json.Reader
import CommandTree.Manifest.Decode

/-!
# Manifests

A manifest is a JSON text with settings, which may be left out, and declarations. It is read
from the bytes of a file, which must be UTF-8.
-/

namespace CommandTree

open Json (Doc)

/-- What a manifest says. -/
structure Manifest where
  settings : Settings
  declarations : List Declaration
  deriving DecidableEq, Repr, Inhabited

namespace Manifest

/-- A manifest as far as it is given. -/
structure ManifestFields where
  settings : Option Settings := none
  declarations : Option (List Declaration) := none

/-- The form of a manifest. It needs declarations. -/
def form : Form ManifestFields Manifest where
  expected := "struct Manifest"
  fields :=
    [{ name := "config"
       isSet := (·.settings.isSome)
       decode := fun room doc s =>
        (settingsForm.decode room doc).map fun x => { s with settings := some x } },
      { name := "declarations"
        isSet := (·.declarations.isSome)
        decode := fun room doc s =>
          (decodeList room declarationForm.decode doc).map fun x =>
            { s with declarations := some x } }]
  start := {}
  finish absent s := do
    let declarations ← require s.declarations (absent 1)
    pure { settings := s.settings.getD {}, declarations }

/-- How deep the arrays and objects of a manifest may be nested. -/
def maxDepth : Nat := 127

/-- Nothing but white space may stand behind a manifest. -/
def decodeRest : Option (List Char) → Except Problem Unit
  | some rest => if rest.all Json.isBlank then .ok () else .error (.flaw .malformed)
  | none => .error (.flaw .truncated)

/-- Reads a manifest. -/
def read (text : String) : Except Problem Manifest := do
  let (doc, rest) := Doc.read text.toList
  let manifest ← form.decode maxDepth doc
  decodeRest rest
  pure manifest

/-- Why a manifest cannot be loaded. -/
inductive LoadFault
  /-- There is no file, or it is not UTF-8. -/
  | unreadable
  | invalid (problem : Problem)
  deriving DecidableEq, Repr

/-- Loads a manifest from the bytes of its file, if there is one. -/
def load (bytes? : Option ByteArray) : Except LoadFault Manifest :=
  match bytes?.bind String.fromUTF8? with
  | none => .error .unreadable
  | some text =>
    match read text with
    | .ok manifest => .ok manifest
    | .error problem => .error (.invalid problem)

end Manifest

end CommandTree
