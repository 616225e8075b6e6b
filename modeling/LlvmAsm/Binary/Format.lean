/-!
# Binary floating-point formats

The interchange formats half (binary16), single (binary32) and double (binary64), given by their
significand precision and exponent width. A bit pattern is read as a finite value
`(-1)^neg · m · 2^q`, an infinity or a NaN (`decode`); a real number given as a ratio of naturals
is rounded to the nearest representable value, a tie going to the even significand and a value
past the largest finite one to infinity (`roundRatio`). `convert` moves a pattern from one format
to another the way a hardware conversion does: finite values round to nearest, a NaN keeps its
sign and the top bits of its payload and becomes quiet.

Everything is exact arithmetic on `Nat` and `Int`; no machine float is involved.
-/

namespace LlvmAsm.Binary

/-- A binary interchange format: significand bits (the leading one included) and exponent bits. -/
structure Format where
  precision : Nat
  exponentBits : Nat
  deriving Repr, DecidableEq

namespace Format

/-- binary16. -/
def half : Format := ⟨11, 5⟩

/-- binary32. -/
def single : Format := ⟨24, 8⟩

/-- binary64. -/
def double : Format := ⟨53, 11⟩

/-- Stored fraction bits: the precision less the implicit leading one. -/
def fractionBits (f : Format) : Nat := f.precision - 1

/-- Total width of a pattern: sign, exponent and fraction. -/
def width (f : Format) : Nat := 1 + f.exponentBits + f.fractionBits

/-- The exponent bias. -/
def bias (f : Format) : Nat := Nat.pow 2 (f.exponentBits - 1) - 1

/-- The exponent field of infinities and NaNs. -/
def topField (f : Format) : Nat := Nat.pow 2 f.exponentBits - 1

/-- The exponent of the last significand place of subnormal numbers. -/
def minQuantum (f : Format) : Int := 1 - (f.bias : Int) - f.fractionBits

/-- The quiet bit of a NaN's fraction. -/
def quietBit (f : Format) : Nat := Nat.pow 2 (f.fractionBits - 1)

/-- A pattern from its sign, exponent field and fraction field. -/
def pack (f : Format) (neg : Bool) (field fraction : Nat) : Nat :=
  (if neg then Nat.pow 2 (f.width - 1) else 0) + field * Nat.pow 2 f.fractionBits + fraction

/-- The infinity of a sign. -/
def infinity (f : Format) (neg : Bool) : Nat := f.pack neg f.topField 0

end Format

/-- What a bit pattern stands for. -/
inductive Value where
  /-- `(-1)^neg · m · 2^q`; zero has `m = 0`. -/
  | finite (neg : Bool) (m : Nat) (q : Int)
  | infinite (neg : Bool)
  /-- A NaN with its stored fraction (payload and quiet bit). -/
  | nan (neg : Bool) (fraction : Nat)
  deriving Repr, DecidableEq

/-- Reads a bit pattern of a format. -/
def decode (f : Format) (bits : Nat) : Value :=
  let fraction := bits % Nat.pow 2 f.fractionBits
  let field := bits / Nat.pow 2 f.fractionBits % Nat.pow 2 f.exponentBits
  let neg := bits / Nat.pow 2 (f.width - 1) % 2 == 1
  if field = f.topField then
    if fraction = 0 then .infinite neg else .nan neg fraction
  else if field = 0 then .finite neg fraction f.minQuantum
  else .finite neg (fraction + Nat.pow 2 f.fractionBits) ((field : Int) - f.bias - f.fractionBits)

/-- Whether the pattern is the smallest significand of a binade of normal numbers, where the
next value below is closer than the next value above. -/
def isBinadeStart (f : Format) (bits : Nat) : Bool :=
  let fraction := bits % Nat.pow 2 f.fractionBits
  let field := bits / Nat.pow 2 f.fractionBits % Nat.pow 2 f.exponentBits
  fraction == 0 && field != 0 && field != f.topField

/-- `num · 2^e` as a ratio of naturals, for any sign of `e`. -/
def scaleByTwo (num : Nat) (e : Int) : Nat × Nat :=
  if 0 ≤ e then (num * Nat.pow 2 e.toNat, 1) else (num, Nat.pow 2 (-e).toNat)

/-- Whether `num / den < 2^e`. -/
def ratioLtPow (num den : Nat) (e : Int) : Bool :=
  let (a, b) := scaleByTwo 1 e
  num * b < a * den

/-- The exponent `e` with `2^e ≤ num / den < 2^(e+1)`, for positive `num` and `den`. -/
def floorLog2Ratio (num den : Nat) : Int :=
  let e : Int := (num.log2 : Int) - den.log2
  if ratioLtPow num den e then e - 1 else e

/-- `num / den` rounded to the nearest natural, a tie going to the even one. -/
def roundHalfEven (num den : Nat) : Nat :=
  let m := num / den
  let r := num % den
  if 2 * r > den || (2 * r == den && m % 2 == 1) then m + 1 else m

/-- The pattern of `(-1)^neg · m · 2^q`, where `m < 2^precision`, and `m` is below
`2^fractionBits` only at the subnormal quantum; past the largest finite value it is infinity. -/
def encode (f : Format) (neg : Bool) (m : Nat) (q : Int) : Nat :=
  if m < Nat.pow 2 f.fractionBits then f.pack neg 0 m
  else
    let field := q + f.fractionBits + f.bias
    if f.topField ≤ field then f.infinity neg
    else f.pack neg field.toNat (m - Nat.pow 2 f.fractionBits)

/-- The pattern nearest to `(-1)^neg · num / den`: ties go to the even significand, values past
the largest finite one become infinity, and zero keeps its sign. -/
def roundRatio (f : Format) (neg : Bool) (num den : Nat) : Nat :=
  if num = 0 || den = 0 then f.pack neg 0 0
  else
    let q := max (floorLog2Ratio num den - f.fractionBits) f.minQuantum
    let (a, b) := scaleByTwo den q
    let m := roundHalfEven (num * b) a
    if m = Nat.pow 2 f.precision then encode f neg (Nat.pow 2 f.fractionBits) (q + 1)
    else encode f neg m q

/-- Moves a pattern from format `src` to format `dst`: a finite value rounds to nearest (ties to
even), an infinity stays one, a NaN keeps its sign and the top bits of its fraction and becomes
quiet. -/
def convert (src dst : Format) (bits : Nat) : Nat :=
  match decode src bits with
  | .finite neg m q =>
    let (num, den) := scaleByTwo m q
    roundRatio dst neg num den
  | .infinite neg => dst.infinity neg
  | .nan neg fraction =>
    let moved :=
      if dst.fractionBits ≤ src.fractionBits then fraction / Nat.pow 2 (src.fractionBits - dst.fractionBits)
      else fraction * Nat.pow 2 (dst.fractionBits - src.fractionBits)
    dst.pack neg dst.topField (moved % Nat.pow 2 dst.fractionBits ||| dst.quietBit)

end LlvmAsm.Binary
