/-!
# Floating-point numbers of 64 bits

A finite magnitude is a whole number of at most 53 bits times a power of two. `round` gives
the nearest one to a quotient, with ties to the even one. Products and quotients are exact
before they are rounded. The sign is kept apart.
-/

namespace CommandTree.Json

/-- The magnitude `mantissa * 2 ^ exponent`. The mantissa is below `2 ^ 53`; unless it is zero
or the exponent is the least, it is not below `2 ^ 52`. -/
structure Binary64 where
  mantissa : Nat
  exponent : Int
  deriving DecidableEq, Repr, Inhabited

namespace Binary64

/-- The number zero. -/
def zero : Binary64 := ⟨0, 0⟩

/-- The least exponent. -/
def minExponent : Int := -1074

/-- The magnitude as a quotient. -/
def ratio (x : Binary64) : Nat × Nat :=
  if 0 ≤ x.exponent then (x.mantissa * Nat.pow 2 x.exponent.toNat, 1)
  else (x.mantissa, Nat.pow 2 (-x.exponent).toNat)

/-- The quotient `num / den` divided by `2 ^ exponent`. -/
def scale (num den : Nat) (exponent : Int) : Nat × Nat :=
  if 0 ≤ exponent then (num, den * Nat.pow 2 exponent.toNat)
  else (num * Nat.pow 2 (-exponent).toNat, den)

/-- The exponent at which a quotient has at most 53 bits before the point, and 53 of them
unless the exponent is the least. -/
def exponentOf (num den : Nat) : Int :=
  let low := max ((Nat.log2 num : Int) - Nat.log2 den - 53) minExponent
  let (n, d) := scale num den low
  if n / d < Nat.pow 2 53 then low else low + 1

/-- The nearest whole number to a quotient, the even one of two. -/
def nearest (num den : Nat) : Nat :=
  let low := num / den
  let twice := 2 * (num % den)
  if twice < den ∨ (twice = den ∧ low % 2 = 0) then low else low + 1

/-- A mantissa that was rounded up to `2 ^ 53` has a bit too many, and is halved. -/
def carry (mantissa : Nat) (exponent : Int) : Binary64 :=
  if mantissa = Nat.pow 2 53 then ⟨Nat.pow 2 52, exponent + 1⟩ else ⟨mantissa, exponent⟩

/-- The nearest magnitude to a quotient. Its exponent has no upper limit. -/
def round (num den : Nat) : Binary64 :=
  if num = 0 then
    zero
  else
    let exponent := exponentOf num den
    let (n, d) := scale num den exponent
    carry (nearest n d) exponent

/-- The largest exponent of a finite magnitude. -/
def maxExponent : Int := 971

/-- The magnitude is too large to be finite: it is at least `2 ^ 1024`. -/
def isInfinite (x : Binary64) : Bool :=
  x.mantissa != 0 && maxExponent < x.exponent

/-- The rounded product. -/
def mul (x y : Binary64) : Binary64 :=
  let (a, b) := x.ratio
  let (c, d) := y.ratio
  round (a * c) (b * d)

/-- The rounded quotient. -/
def div (x y : Binary64) : Binary64 :=
  let (a, b) := x.ratio
  let (c, d) := y.ratio
  round (a * d) (b * c)

/-- The nearest magnitude to a power of ten. -/
def powTen (n : Nat) : Binary64 :=
  round (Nat.pow 10 n) 1

/-- Divides by a power of ten, at most `10 ^ 308` at a time. -/
def scaleDown (x : Binary64) (n : Nat) : Binary64 :=
  if n ≤ 308 then
    x.div (powTen n)
  else if x.mantissa = 0 then
    x
  else
    scaleDown (x.div (powTen 308)) (n - 308)
termination_by n

/-- The number with these decimal digits, times a power of ten. The digits are rounded first,
and then the product or quotient. There is none if it is not finite. -/
def ofDecimal? (digits : Nat) (exponent : Int) : Option Binary64 :=
  let x := round digits 1
  if exponent < 0 then
    some (x.scaleDown (-exponent).toNat)
  else if x.mantissa = 0 then
    some x
  else if exponent ≤ 308 then
    let product := x.mul (powTen exponent.toNat)
    if product.isInfinite then none else some product
  else
    none

end Binary64

end CommandTree.Json
