import CommandTree.Json.Binary64

/-!
# The shortest decimal of a floating-point number

A number is written with the fewest digits that are read back as the same number, and of
those with the digits nearest to it. `shortest` tries one digit, two digits and so on. Each
number of digits is a grid, and only the two neighbours of the number on the grid can be
right. Seventeen digits always are.
-/

namespace CommandTree.Json

/-- The decimal `digits * 10 ^ exponent`. -/
structure Decimal where
  digits : Nat
  exponent : Int
  deriving DecidableEq, Repr, Inhabited

namespace Decimal

/-- The decimal as a quotient. -/
def ratio (d : Decimal) : Nat × Nat :=
  if 0 ≤ d.exponent then (d.digits * Nat.pow 10 d.exponent.toNat, 1)
  else (d.digits, Nat.pow 10 (-d.exponent).toNat)

/-- The decimal without zeros at its end. `fuel` bounds their number. -/
def trimZeros : Nat → Decimal → Decimal
  | 0, d => d
  | fuel + 1, d =>
    if d.digits ≠ 0 ∧ d.digits % 10 = 0 then trimZeros fuel ⟨d.digits / 10, d.exponent + 1⟩ else d

end Decimal

namespace Binary64

/-- The decimal is read as this number: it lies nearer to it than to its neighbours, or in the
middle if the number is even. Below a power of two the neighbour is nearer. -/
def reads (x : Binary64) (d : Decimal) : Bool :=
  let (n, m) := d.ratio
  let (a, b) := (⟨4 * x.mantissa + 2, x.exponent - 2⟩ : Binary64).ratio
  let step := if x.mantissa = Nat.pow 2 52 ∧ minExponent < x.exponent then 1 else 2
  let (c, e) := (⟨4 * x.mantissa - step, x.exponent - 2⟩ : Binary64).ratio
  if x.mantissa % 2 = 0 then c * m ≤ n * e && n * b ≤ a * m
  else c * m < n * e && n * b < a * m

/-- The number of digits before the point of a quotient below 1, which is zero or negative.
`fuel` bounds the zeros behind the point. -/
def leadingZeros (num den : Nat) : Nat → Nat
  | 0 => 0
  | fuel + 1 => if num * 10 < den then 1 + leadingZeros (num * 10) den fuel else 0

/-- The number of digits before the point of a positive number. -/
def pointPlace (x : Binary64) : Int :=
  let (num, den) := x.ratio
  if den ≤ num then (Nat.toDigits 10 (num / den)).length else -(leadingZeros num den 400 : Int)

/-- The decimal with this many digits that is read as the number, the nearer of two. -/
def withDigits? (x : Binary64) (count : Nat) : Option Decimal :=
  let exponent := x.pointPlace - count
  let (num, den) := x.ratio
  let (n, d) := if 0 ≤ exponent then (num, den * Nat.pow 10 exponent.toNat)
    else (num * Nat.pow 10 (-exponent).toNat, den)
  let low : Decimal := ⟨n / d, exponent⟩
  let high : Decimal := ⟨n / d + 1, exponent⟩
  match x.reads low, x.reads high with
  | true, true =>
    let below := 2 * (n % d)
    if below < d ∨ (below = d ∧ low.digits % 2 = 0) then some low else some high
  | true, false => some low
  | false, true => some high
  | false, false => none

/-- The shortest decimal of a positive number. -/
def shortest (x : Binary64) : Decimal :=
  match (List.range 17).findSome? fun n => x.withDigits? (n + 1) with
  | some d => d.trimZeros 20
  | none => ⟨0, 0⟩

/-! ## Layout -/

/-- Zeros in a row. -/
def zeros (n : Nat) : String :=
  String.ofList (List.replicate n '0')

/-- The exponent behind the digits, with its sign. -/
def exponentText (n : Int) : String :=
  if n < 0 then "e-" ++ Nat.repr (-n).toNat else "e+" ++ Nat.repr n.toNat

/-- A decimal in plain form if its point lies between five places in front of its digits and
sixteen places behind their start, and with an exponent otherwise. There is always a point or
an exponent. -/
def decimalText (d : Decimal) : String :=
  let digits := Nat.repr d.digits
  let count : Int := digits.length
  let place := count + d.exponent
  if 0 ≤ d.exponent ∧ place ≤ 16 then
    digits ++ zeros d.exponent.toNat ++ ".0"
  else if 0 < place ∧ place ≤ 16 then
    String.ofList (digits.toList.take place.toNat) ++ "." ++
      String.ofList (digits.toList.drop place.toNat)
  else if -5 < place ∧ place ≤ 0 then
    "0." ++ zeros (-place).toNat ++ digits
  else if count = 1 then
    digits ++ exponentText (place - 1)
  else
    String.ofList (digits.toList.take 1) ++ "." ++ String.ofList (digits.toList.drop 1) ++
      exponentText (place - 1)

/-- The text of a number with its sign. Zero has a sign too. -/
def text (negative : Bool) (x : Binary64) : String :=
  (if negative then "-" else "") ++ if x.mantissa = 0 then "0.0" else decimalText x.shortest

end Binary64

end CommandTree.Json
