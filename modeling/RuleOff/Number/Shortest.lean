import RuleOff.Number.Double

/-!
# The shortest decimal text of a double

A double is written with the fewest decimal digits that read back as the same double; of several
such numerals the nearest is taken.

## Main definitions

* `Magnitude.shortest`: the digits and the power of ten of the shortest numeral.
* `Double.text`: the numeral, positional for moderate exponents and scientific beyond.
-/

namespace RuleOff

namespace Magnitude

/-- The bounds of the ratios that round to the double, as numerators over a common denominator,
with the double itself between them: lower bound, value, upper bound, denominator. -/
def interval (x : Magnitude) : Nat × Nat × Nat × Nat :=
  let below := if x.mantissa = Nat.pow 2 52 ∧ minExponent < x.exponent then 1 else 2
  let e := x.exponent - 2
  let (unit, den) := if 0 ≤ e then (Nat.pow 2 e.toNat, 1) else (1, Nat.pow 2 (-e).toNat)
  ((4 * x.mantissa - below) * unit, 4 * x.mantissa * unit, (4 * x.mantissa + 2) * unit, den)

/-- The multiple of `10 ^ k` nearest to the double among those that round to it, as a factor. -/
def onGrid? (x : Magnitude) (k : Int) : Option Nat :=
  let (low, value, high, den) := x.interval
  let (up, down) := if 0 ≤ k then (1, Nat.pow 10 k.toNat) else (Nat.pow 10 (-k).toNat, 1)
  -- the candidate `d` stands for `d * down / up`
  let floor := value * up / (den * down)
  let inside (d : Nat) : Bool :=
    let place := d * down * den
    if x.mantissa % 2 = 0 then low * up ≤ place && place ≤ high * up
    else low * up < place && place < high * up
  let nearLow := inside floor && floor != 0
  let nearHigh := inside (floor + 1)
  let gapLow := value * up - floor * down * den
  let gapHigh := (floor + 1) * down * den - value * up
  if nearLow && nearHigh then
    if gapLow < gapHigh then some floor
    else if gapHigh < gapLow then some (floor + 1)
    else some (floor + floor % 2)
  else if nearLow then some floor
  else if nearHigh then some (floor + 1)
  else none

/-- The first hit on the grids of `10 ^ k`, `10 ^ (k - 1)`, … -/
def searchGrids (x : Magnitude) : Nat → Int → Nat × Int
  | 0, k => ((x.onGrid? k).getD 0, k)
  | n + 1, k =>
    match x.onGrid? k with
    | some d => (d, k)
    | none => searchGrids x n (k - 1)

/-- The number with its trailing decimal zeros moved into the exponent. -/
def stripZeros : Nat → Nat → Int → Nat × Int
  | 0, d, k => (d, k)
  | n + 1, d, k => if d % 10 = 0 ∧ d ≠ 0 then stripZeros n (d / 10) (k + 1) else (d, k)

/-- An exponent of ten that is at least the one of the leading digit. -/
def leadingExponent (x : Magnitude) : Int :=
  ((x.mantissa.log2 : Int) + x.exponent) * 30103 / 100000 + 1

/-- The digits, as a number, and the power of ten of the shortest numeral. -/
def shortest (x : Magnitude) : Nat × Int :=
  let (d, k) := x.searchGrids 20 x.leadingExponent
  stripZeros 20 d k

end Magnitude

namespace Double

/-- The numeral of a double, always with a point or an exponent: positional while the point is
at most sixteen places after the first digit or at most five zeros before it, and with an
exponent beyond, which shows its sign. -/
def text (x : Double) : Text :=
  let sign : Text := if x.negative then ['-'] else []
  if x.magnitude.mantissa = 0 then sign ++ ['0', '.', '0']
  else
    let (d, k) := x.magnitude.shortest
    let digits := Text.ofNat d
    let point : Int := digits.length + k
    sign ++
      (if 0 ≤ k ∧ point ≤ 16 then digits ++ List.replicate k.toNat '0' ++ ['.', '0']
      else if 0 < point ∧ point ≤ 16 then
        digits.take point.toNat ++ '.' :: digits.drop point.toNat
      else if -5 < point ∧ point ≤ 0 then
        '0' :: '.' :: (List.replicate (-point).toNat '0' ++ digits)
      else
        let tail := digits.drop 1
        digits.take 1 ++ (if tail.isEmpty then [] else '.' :: tail) ++
          'e' :: ((if 0 < point then ['+'] else []) ++ Text.ofInt (point - 1)))

end Double

end RuleOff
