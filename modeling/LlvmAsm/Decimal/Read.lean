import LlvmAsm.Decimal.Shortest

/-!
# Reading decimal text as a double

The decimal float grammar, over bytes:

```
text     ::= sign? (number | "inf" | "infinity" | "nan")     -- the words in any case
number   ::= digits ("." digits?)? exponent? | "." digits exponent?
exponent ::= ("e" | "E") sign? digits
```

A number reads as the double nearest to its exact value (ties to the even significand, past the
largest finite double to infinity); a NaN is the quiet NaN with an empty payload. Empty text and
text outside the grammar are refused with two different reasons.
-/

namespace LlvmAsm.Decimal

open LlvmAsm.Binary

/-- Why a text is not a decimal float. -/
inductive FloatTextError where
  | empty
  | invalid
  deriving Repr, DecidableEq

/-- The wording of a refused decimal float text. -/
def FloatTextError.message : FloatTextError → String
  | .empty => "cannot parse float from empty string"
  | .invalid => "invalid float literal"

/-- Whether a byte is an ASCII decimal digit. -/
def isDigitByte (b : UInt8) : Bool := 48 ≤ b && b ≤ 57

/-- The value of a run of decimal digits. -/
def digitsValue (ds : List UInt8) : Nat := ds.foldl (fun acc d => acc * 10 + (d.toNat - 48)) 0

/-- A decimal number `mantissa · 10^exponent` as written. -/
structure DecimalNumber where
  mantissa : Nat
  exponent : Int
  deriving Repr, DecidableEq

/-- Reads `("e" | "E") sign? digits` at the end of a number; `none` when the digits are missing. -/
def readExponent (bytes : List UInt8) : Option (Int × List UInt8) :=
  let (neg, body) :=
    match bytes with
    | b :: rest => if b == 45 then (true, rest) else if b == 43 then (false, rest) else (false, bytes)
    | [] => (false, bytes)
  let ds := body.takeWhile isDigitByte
  if ds.isEmpty then none
  else
    let v : Int := digitsValue ds
    some (if neg then -v else v, body.dropWhile isDigitByte)

/-- Reads an unsigned decimal number covering all of `bytes`. -/
def readNumber (bytes : List UInt8) : Option DecimalNumber :=
  let whole := bytes.takeWhile isDigitByte
  let afterWhole := bytes.dropWhile isDigitByte
  let (frac, afterFrac) :=
    match afterWhole with
    | 46 :: rest => (rest.takeWhile isDigitByte, rest.dropWhile isDigitByte)
    | _ => ([], afterWhole)
  if whole.isEmpty && frac.isEmpty then none
  else
    let base : DecimalNumber := ⟨digitsValue (whole ++ frac), -(frac.length : Int)⟩
    match afterFrac with
    | [] => some base
    | b :: rest =>
      if b == 101 || b == 69 then
        match readExponent rest with
        | some (e, []) => some ⟨base.mantissa, base.exponent + e⟩
        | _ => none
      else none

/-- ASCII lowercase of a byte. -/
def lowerByte (b : UInt8) : UInt8 := if 65 ≤ b && b ≤ 90 then b + 32 else b

/-- Whether `bytes` spell `word` (given in lowercase), in any case. -/
def spellsWord (bytes : List UInt8) (word : String) : Bool :=
  bytes.map lowerByte == word.toUTF8.toList

/-- The double nearest to `(-1)^neg · mantissa · 10^exponent`. Values with more than 310 digits
before the point are past the largest double and those below `10^-330` are under half the least
subnormal, so only the rest is computed exactly. -/
def DecimalNumber.toBinary64 (n : DecimalNumber) (neg : Bool) : Nat :=
  let f := Format.double
  if n.mantissa = 0 then f.pack neg 0 0
  else
    let top := n.exponent + digitCount n.mantissa
    if 310 < top then f.infinity neg
    else if top < -330 then f.pack neg 0 0
    else
      let (num, den) := scaleByTen n.mantissa n.exponent
      roundRatio f neg num den

/-- The quiet NaN with an empty payload. -/
def quietNaN (neg : Bool) : Nat := Format.double.pack neg Format.double.topField Format.double.quietBit

/-- Reads decimal float text as the pattern of the nearest double. -/
def readBinary64 (text : String) : Except FloatTextError Nat :=
  match text.toUTF8.toList with
  | [] => .error .empty
  | b :: rest =>
    let neg := b == 45
    let body := if b == 45 || b == 43 then rest else b :: rest
    if body.isEmpty then .error .invalid
    else match readNumber body with
      | some n => .ok (n.toBinary64 neg)
      | none =>
        if spellsWord body "inf" || spellsWord body "infinity" then .ok (Format.double.infinity neg)
        else if spellsWord body "nan" then .ok (quietNaN neg)
        else .error .invalid

end LlvmAsm.Decimal
