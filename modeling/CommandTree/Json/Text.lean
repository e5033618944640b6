import CommandTree.Json.Number
import CommandTree.Text.Quoted
import CommandTree.Text.Span

/-!
# Strings of a JSON text

A string is scanned into units: plain characters, and code units that are written as four
hexadecimal digits. The scan accepts any code units. To be text, two code units must form a
pair where one is half of a character.
-/

namespace CommandTree.Json

/-- A unit of a string. -/
inductive CodeUnit
  | plain (c : Char)
  | code (n : Nat)
  deriving DecidableEq, Repr, Inhabited

/-! ## Scanning -/

/-- The character that a letter behind a backslash stands for. -/
def ofEscape (c : Char) : Option Char :=
  if c = '"' ∨ c = '\\' ∨ c = '/' then some c
  else if c = 'b' then some '\x08'
  else if c = 'f' then some '\x0c'
  else if c = 'n' then some '\n'
  else if c = 'r' then some '\r'
  else if c = 't' then some '\t'
  else none

/-- The code unit of four hexadecimal digits. -/
def codeUnit? (a b c d : Char) : Option Nat := do
  let a ← Text.Quoted.hexValue a
  let b ← Text.Quoted.hexValue b
  let c ← Text.Quoted.hexValue c
  let d ← Text.Quoted.hexValue d
  pure (a * 0x1000 + b * 0x100 + c * 0x10 + d)

/-- Scans a string from behind its first quote. Gives the units, and the text behind the last
quote or the flaw that the scan ends at. -/
def scanString : List Char → List CodeUnit × Except Flaw (List Char)
  | [] => ([], .error .truncated)
  | '"' :: cs => ([], .ok cs)
  | '\\' :: 'u' :: a :: b :: c :: d :: cs =>
    match codeUnit? a b c d with
    | some n =>
      let (units, rest) := scanString cs
      (.code n :: units, rest)
    | none => ([], .error .malformed)
  | '\\' :: 'u' :: cs =>
    ([], .error (if CommandTree.Text.byteLength cs < 4 then .truncated else .malformed))
  | '\\' :: c :: cs =>
    match ofEscape c with
    | some plain =>
      let (units, rest) := scanString cs
      (.plain plain :: units, rest)
    | none => ([], .error .malformed)
  | ['\\'] => ([], .error .truncated)
  | c :: cs =>
    if c.toNat < 0x20 then
      ([], .error .malformed)
    else
      let (units, rest) := scanString cs
      (.plain c :: units, rest)

/-! ## Text -/

/-- The first half of a character. -/
def isLeading (n : Nat) : Bool :=
  0xD800 ≤ n && n ≤ 0xDBFF

/-- The second half of a character. -/
def isTrailing (n : Nat) : Bool :=
  0xDC00 ≤ n && n ≤ 0xDFFF

/-- The character of two halves. -/
def pairValue (n m : Nat) : Char :=
  Char.ofNat ((n - 0xD800) * 0x400 + (m - 0xDC00) + 0x10000)

/-- The text of units. A half without the other is a flaw where it stands, unless the scan
ended there with a flaw of its own. -/
def unitsText (ending : Option Flaw) : List CodeUnit → Except Flaw (List Char)
  | [] =>
    match ending with
    | some flaw => .error flaw
    | none => .ok []
  | .plain c :: units => (unitsText ending units).map (c :: ·)
  | .code n :: units =>
    if isTrailing n then
      .error .malformed
    else if isLeading n then
      match units with
      | .code m :: units =>
        if isTrailing m then (unitsText ending units).map (pairValue n m :: ·)
        else .error .malformed
      | .plain _ :: _ => .error .malformed
      | [] => .error (ending.getD .malformed)
    else
      (unitsText ending units).map (Char.ofNat n :: ·)

end CommandTree.Json
