import LlvmAsm.Binary.Format

/-!
# Shortest decimal digits of a binary value

A positive binary value `m · 2^q` stands for every real that rounds to it: the interval halfway to
its neighbours, ends included exactly when `m` is even. Its *shortest digits* are the decimal
`c · 10^e` in that interval with the fewest significant digits; of two such with as many digits,
the nearer one, and of two equally near, the larger.

The search walks the decimal grids with 1, 2, 3, … significant digits below the value's leading
position. On each grid only the two grid points around the value can lie in the interval (if any
point does, one of these does), so each grid costs two exact comparisons.
-/

namespace LlvmAsm.Decimal

open LlvmAsm.Binary

/-- The number of decimal digits of a natural (one for zero). -/
def digitCount (n : Nat) : Nat := (Nat.toDigits 10 n).length

/-- `x · 10^e` as a ratio of naturals, for any sign of `e`. -/
def scaleByTen (x : Nat) (e : Int) : Nat × Nat :=
  if 0 ≤ e then (x * Nat.pow 10 e.toNat, 1) else (x, Nat.pow 10 (-e).toNat)

/-- The exponent `E` with `10^(E-1) ≤ num / den < 10^E`, for positive `num` and `den`. -/
def decimalExponent (num den : Nat) : Int :=
  let e : Int := (digitCount num : Int) - digitCount den
  let (a, b) := scaleByTen 1 e
  if num * b < a * den then e else e + 1

/-- The reals that round to a binary value, as numerators over one denominator. -/
structure RoundingInterval where
  low : Nat
  value : Nat
  high : Nat
  den : Nat
  /-- Whether the two ends belong to the interval. -/
  inclusive : Bool

/-- The rounding interval of `m · 2^q`. The gap below is half the gap above when the value opens
a binade (`narrowBelow`). -/
def RoundingInterval.of (m : Nat) (q : Int) (narrowBelow : Bool) : RoundingInterval :=
  let (scale, den) := scaleByTwo 1 (q - 2)
  { low := (4 * m - (if narrowBelow then 1 else 2)) * scale
    value := 4 * m * scale
    high := (4 * m + 2) * scale
    den := den
    inclusive := m % 2 == 0 }

/-- Drops trailing zero digits of `c · 10^e`, keeping its value. -/
def stripZeros (c : Nat) (e : Int) : Nat × Int :=
  if _h : c ≠ 0 ∧ c % 10 = 0 then stripZeros (c / 10) (e + 1) else (c, e)
termination_by c
decreasing_by omega

/-- The pick on the grid of step `10^j`: the grid point below the value or the one above, if
either lies in the interval; of both, the nearer, a tie going up. -/
def gridPick (r : RoundingInterval) (j : Int) : Option Nat :=
  let (ua, ub) := scaleByTen 1 j
  -- the step is ua / ub; the value is r.value / r.den
  let d := r.value * ub / (r.den * ua)
  let downOk :=
    if r.inclusive then r.low * ub ≤ d * ua * r.den else r.low * ub < d * ua * r.den
  let upOk :=
    if r.inclusive then (d + 1) * ua * r.den ≤ r.high * ub else (d + 1) * ua * r.den < r.high * ub
  if downOk && upOk then
    if 2 * r.value * ub < (2 * d + 1) * ua * r.den then some d else some (d + 1)
  else if downOk then some d
  else if upOk then some (d + 1)
  else none

/-- Tries the grids with `n`, `n + 1`, … significant digits below the leading position `top`,
at most `fuel` of them; the last one tried takes the nearer grid point regardless. -/
def searchGrids (r : RoundingInterval) (top : Int) : Nat → Nat → Nat × Int
  | 0, _ => (0, 0)
  | fuel + 1, n =>
    let j := top - n
    match gridPick r j with
    | some c => stripZeros c j
    | none =>
      if fuel = 0 then
        let (ua, ub) := scaleByTen 1 j
        stripZeros ((2 * r.value * ub + r.den * ua) / (2 * r.den * ua)) j
      else searchGrids r top fuel (n + 1)

/-- The shortest digits `(c, e)` of the positive value `m · 2^q`: the value reads as `c · 10^e`,
`c` has no trailing zero, and the search stops at seventeen digits, which suffice for binary64. -/
def shortest (m : Nat) (q : Int) (narrowBelow : Bool) : Nat × Int :=
  let r := RoundingInterval.of m q narrowBelow
  searchGrids r (decimalExponent r.value r.den) 17 1

end LlvmAsm.Decimal
