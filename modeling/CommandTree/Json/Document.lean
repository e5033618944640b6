import CommandTree.Json.Number
import CommandTree.Json.Text

/-!
# JSON documents

A text is read as a document as far as it is JSON. Where it stops being JSON, the document has
a flaw in that place, and there is nothing behind it. So whoever goes through a document from
left to right finds first what comes first in the text: a value of the wrong kind, or the flaw.

Some values can be passed over that cannot be used: a number that is not finite, and a string
with half a character. Others are flawed either way, if not always in the same way; a number
or string therefore says apart what it is and how it fails to be passed over.
-/

namespace CommandTree.Json

/-- A JSON document. -/
inductive Doc
  /-- The word for nothing, or a truth value. -/
  | word (value : Except Flaw (Option Bool))
  | number (value : Except Flaw Number) (skipped : Option Flaw)
  | string (value : Except Flaw String) (skipped : Option Flaw)
  /-- Values in order, and how the array fails to end. -/
  | array (items : List Doc) (ending : Option Flaw)
  /-- Keys with their values in order, and how the object fails to end. -/
  | object (entries : List (Doc × Doc)) (ending : Option Flaw)
  /-- There is no value. -/
  | missing (flaw : Flaw)

namespace Doc

instance : Inhabited Doc := ⟨.missing .truncated⟩

/-- A string without flaws. -/
def ofString (s : String) : Doc := .string (.ok s) none

/-! ## Passing over -/

/-- A key must be a string. -/
def skipKey : Doc → Except Flaw Unit
  | .string _ none => .ok ()
  | .string _ (some flaw) => .error flaw
  | .missing flaw => .error flaw
  | _ => .error .malformed

/-- The flaw at the end of an array or object. -/
def skipEnding : Option Flaw → Except Flaw Unit
  | none => .ok ()
  | some flaw => .error flaw

mutual

/-- The first flaw of a document that is passed over. -/
def skip : Doc → Except Flaw Unit
  | .word (.ok _) => .ok ()
  | .word (.error flaw) => .error flaw
  | .number _ none => .ok ()
  | .number _ (some flaw) => .error flaw
  | .string _ none => .ok ()
  | .string _ (some flaw) => .error flaw
  | .array items ending => do skipItems items; skipEnding ending
  | .object entries ending => do skipEntries entries; skipEnding ending
  | .missing flaw => .error flaw

/-- The first flaw of the items of an array. -/
def skipItems : List Doc → Except Flaw Unit
  | [] => .ok ()
  | item :: rest => do skip item; skipItems rest

/-- The first flaw of the entries of an object. -/
def skipEntries : List (Doc × Doc) → Except Flaw Unit
  | [] => .ok ()
  | (key, value) :: rest => do
    skipKey key
    skip value
    skipEntries rest

end

/-! ## Keeping -/

/-- The text of a key. -/
def keyText : Doc → Except Flaw String
  | .string value _ => value
  | .missing flaw => .error flaw
  | _ => .error .malformed

mutual

/-- The first flaw of a document that is kept to be used later. Arrays and objects may be
nested `room` deep. -/
def check (room : Nat) : Doc → Except Flaw Unit
  | .word value => value.map fun _ => ()
  | .number value _ => value.map fun _ => ()
  | .string value _ => value.map fun _ => ()
  | .array items ending =>
    match room with
    | 0 => .error .malformed
    | room + 1 => do checkItems room items; skipEnding ending
  | .object entries ending =>
    match room with
    | 0 => .error .malformed
    | room + 1 => do checkEntries room entries; skipEnding ending
  | .missing flaw => .error flaw

/-- The first flaw of the items of an array. -/
def checkItems (room : Nat) : List Doc → Except Flaw Unit
  | [] => .ok ()
  | item :: rest => do check room item; checkItems room rest

/-- The first flaw of the entries of an object. -/
def checkEntries (room : Nat) : List (Doc × Doc) → Except Flaw Unit
  | [] => .ok ()
  | (key, value) :: rest => do
    let _ ← keyText key
    check room value
    checkEntries room rest

end

end Doc

end CommandTree.Json
