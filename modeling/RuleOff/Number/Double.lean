import RuleOff.Text.Basic

/-!
# Double-precision numbers

A finite double is a sign and a magnitude `mantissa * 2 ^ exponent`, where the mantissa has at
most 53 bits. All rounding is done on natural numbers: a positive ratio goes to the nearest
double, a tie to the even mantissa.

## Main definitions

* `Magnitude`: a nonnegative finite double.
* `Magnitude.ofRatio?`: the double nearest to a ratio, `none` above the largest one.
* `Magnitude.ofDecimal?`: the double read from a significand and a power of ten.
* `Double`: a magnitude with a sign.
-/

namespace RuleOff

/-- A nonnegative finite double, `mantissa * 2 ^ exponent`. -/
structure Magnitude where
  mantissa : Nat
  exponent : Int
deriving DecidableEq, Repr, Inhabited

/-- A finite double. Zero has two signs. -/
structure Double where
  negative : Bool
  magnitude : Magnitude
deriving DecidableEq, Repr, Inhabited

namespace Magnitude

/-- The exponent of the smallest positive double. -/
def minExponent : Int := -1074

def maxExponent : Int := 971

def zero : Magnitude := ⟨0, minExponent⟩

/-- The quotient of two natural numbers rounded to the nearest one, a tie to the even one. -/
def roundDiv (num den : Nat) : Nat :=
  let q := num / den
  let r := num % den
  if 2 * r < den then q
  else if den < 2 * r then q + 1
  else q + q % 2

/-- The ratio `num / den` divided by `2 ^ e`. -/
def scale (num den : Nat) (e : Int) : Nat × Nat :=
  if 0 ≤ e then (num, den * Nat.pow 2 e.toNat) else (num * Nat.pow 2 (-e).toNat, den)

/-- The double nearest to `num / den`, for a positive `den`; `none` if the ratio rounds to more
than the largest double. -/
def ofRatio? (num den : Nat) : Option Magnitude :=
  if num = 0 then some zero
  else
    let guess : Int := (num.log2 : Int) - (den.log2 : Int) - 53
    let (n, d) := scale num den guess
    let fitted := if n / d < Nat.pow 2 53 then guess else guess + 1
    let e := max fitted minExponent
    let (n, d) := scale num den e
    let m := roundDiv n d
    let (m, e) := if m = Nat.pow 2 53 then (Nat.pow 2 52, e + 1) else (m, e)
    if maxExponent < e then none else some ⟨m, e⟩

def ratio (x : Magnitude) : Nat × Nat :=
  if 0 ≤ x.exponent then (x.mantissa * Nat.pow 2 x.exponent.toNat, 1)
  else (x.mantissa, Nat.pow 2 (-x.exponent).toNat)

/-- The product with `10 ^ k`, where the power is first rounded to a double. -/
def mulPowTen? (x : Magnitude) (k : Nat) : Option Magnitude := do
  let p ← ofRatio? (Nat.pow 10 k) 1
  let (a, b) := x.ratio
  let (c, d) := p.ratio
  ofRatio? (a * c) (b * d)

/-- The quotient by `10 ^ k`, where the power is first rounded to a double. -/
def divPowTen? (x : Magnitude) (k : Nat) : Option Magnitude := do
  let p ← ofRatio? (Nat.pow 10 k) 1
  let (a, b) := x.ratio
  let (c, d) := p.ratio
  ofRatio? (a * d) (b * c)

/-- The largest power of ten that is a double. -/
def maxPowTen : Nat := 308

/-- The quotient by `10 ^ k`, in steps of at most `10 ^ 308`, and zero when the given number of
steps is used up: three such steps take every double to zero. -/
def divSteps? : Nat → Magnitude → Nat → Option Magnitude
  | 0, _, _ => some zero
  | n + 1, x, k =>
    if x.mantissa = 0 then some x
    else if k ≤ maxPowTen then x.divPowTen? k
    else (x.divPowTen? maxPowTen).bind fun y => divSteps? n y (k - maxPowTen)

/-- The value of `significand * 10 ^ exponent`: the significand and the power of ten are each
rounded to a double, then combined and rounded once more. `none` if that is too large. -/
def ofDecimal? (significand : Nat) (exponent : Int) : Option Magnitude := do
  let x ← ofRatio? significand 1
  if 0 ≤ exponent then
    if exponent.toNat ≤ maxPowTen then x.mulPowTen? exponent.toNat
    else if x.mantissa = 0 then some x
    else none
  else divSteps? 4 x (-exponent).toNat

end Magnitude

end RuleOff
