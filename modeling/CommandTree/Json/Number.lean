import CommandTree.Json.Binary64

/-!
# Numbers of a JSON text

A number is a sign, whole digits, and perhaps a fraction and an exponent. `scanNumber` cuts
it off the front of a text. Its value is a whole number if it is written as one and fits 64
bits, and a floating-point number otherwise.

A text can stop being a number in two ways: it ends too early, or the wrong character stands
there.
-/

namespace CommandTree.Json

/-- How a text fails to be JSON. -/
inductive Flaw
  /-- It ends too early. -/
  | truncated
  /-- There is something that cannot stand there. -/
  | malformed
  deriving DecidableEq, Repr, Inhabited

/-- The value of a number. -/
inductive Number
  | natural (n : Nat)
  /-- The negative of a positive number. -/
  | negative (n : Nat)
  | float (negative : Bool) (magnitude : Binary64)
  deriving DecidableEq, Repr, Inhabited

/-! ## Scanning -/

/-- The parts of a number as it is written. -/
structure NumberText where
  negative : Bool
  whole : List Char
  fraction : Option (List Char) := none
  /-- Whether the exponent is negative, and its digits. -/
  exponent : Option (Bool × List Char) := none
  deriving DecidableEq, Repr, Inhabited

/-- One or more digits at the front of a text. -/
def scanDigits : List Char → Except Flaw (List Char × List Char)
  | [] => .error .truncated
  | c :: cs =>
    if c.isDigit then .ok (c :: cs.takeWhile Char.isDigit, cs.dropWhile Char.isDigit)
    else .error .malformed

/-- The digits before the point. Only zero starts with a zero. -/
def scanWhole : List Char → Except Flaw (List Char × List Char)
  | '0' :: cs =>
    match cs with
    | c :: _ => if c.isDigit then .error .malformed else .ok (['0'], cs)
    | [] => .ok (['0'], cs)
  | cs => scanDigits cs

/-- The exponent, if there is one. -/
def scanExponent (cs : List Char) : Except Flaw (Option (Bool × List Char) × List Char) :=
  match cs with
  | c :: rest =>
    if c = 'e' ∨ c = 'E' then
      let (negative, rest) := match rest with
        | '-' :: rest => (true, rest)
        | '+' :: rest => (false, rest)
        | rest => (false, rest)
      (scanDigits rest).map fun (digits, rest) => (some (negative, digits), rest)
    else
      .ok (none, cs)
  | [] => .ok (none, cs)

/-- The fraction, if there is one. -/
def scanFraction (cs : List Char) : Except Flaw (Option (List Char) × List Char) :=
  match cs with
  | '.' :: rest => (scanDigits rest).map fun (digits, rest) => (some digits, rest)
  | _ => .ok (none, cs)

/-- Cuts a number off the front of a text. -/
def scanNumber (cs : List Char) : Except Flaw (NumberText × List Char) := do
  let (negative, cs) := match cs with
    | '-' :: rest => (true, rest)
    | _ => (false, cs)
  let (whole, cs) ← scanWhole cs
  let (fraction, cs) ← scanFraction cs
  let (exponent, cs) ← scanExponent cs
  pure ({ negative, whole, fraction, exponent }, cs)

/-! ## Value -/

/-- The value of a digit. -/
def digitValue (c : Char) : Nat :=
  c.toNat - 0x30

/-- Appends digits to a number as long as it fits 64 bits, and gives the digits left over. -/
def absorb : Nat → List Char → Nat × List Char
  | n, [] => (n, [])
  | n, c :: cs =>
    if n * 10 + digitValue c < Nat.pow 2 64 then absorb (n * 10 + digitValue c) cs
    else (n, c :: cs)

/-- The largest exponent that is taken as written. -/
def largestExponent : Nat := Nat.pow 2 31 - 1

/-- The floating-point value of a number. Digits beyond 64 bits only shift the exponent. -/
def NumberText.float? (t : NumberText) : Option Binary64 :=
  let (n, wholeLeft) := absorb 0 t.whole
  let fraction := t.fraction.getD []
  let (n, fractionLeft) := absorb n fraction
  let shift : Int := (wholeLeft.length : Int) - (fraction.length - fractionLeft.length : Nat)
  match t.exponent with
  | none => Binary64.ofDecimal? n shift
  | some (negative, digits) =>
    let (exponent, exponentLeft) := absorb 0 digits
    if !exponentLeft.isEmpty || largestExponent < exponent then
      if n = 0 ∨ negative then some .zero else none
    else
      Binary64.ofDecimal? n (if negative then shift - exponent else shift + exponent)

/-- The value of a number. Minus zero and whole numbers that do not fit 64 bits are
floating-point numbers. There is none if it is not finite. -/
def NumberText.value? (t : NumberText) : Option Number :=
  let (n, left) := absorb 0 t.whole
  let isWhole := t.fraction.isNone && t.exponent.isNone && left.isEmpty
  if isWhole && !t.negative then
    some (.natural n)
  else if isWhole && n != 0 && n ≤ Nat.pow 2 63 then
    some (.negative n)
  else
    t.float?.map (.float t.negative)

end CommandTree.Json
