import LlvmAsm.Error
import LlvmAsm.Text.Quoted

/-!
# Integer constants

An integer constant has a width of 1 to 2^23 bits and a value kept in the signed range of that
width, `[-2^(bits-1), 2^(bits-1))`. Its literal text is `true`/`false` (width 1 only), `u0x`
followed by hex digits (read unsigned), `s0x` followed by hex digits (read as two's complement),
or an optional `-` followed by decimal digits. A literal is accepted when its value lies in
`[-2^(bits-1), 2^bits)`, so both the signed and the unsigned reading fit, and is stored as the
signed value with the same bits. Width 1 is shown as `true`/`false`, other widths in decimal.
-/

namespace LlvmAsm

/-- The widest integer type, in bits. -/
def maxIntBits : Nat := Nat.pow 2 23

/-- An integer of a fixed width, with its value in the signed range of the width. -/
structure IntConst where
  bits : Nat
  value : Int
  deriving Repr, DecidableEq

namespace IntConst

/-- `2^bits`, the number of values of a width. -/
def modulus (bits : Nat) : Int := ((Nat.pow 2 (max bits 1) : Nat) : Int)

/-- The signed value with the same low `bits` bits as a value in `[-2^(bits-1), 2^bits)`. -/
def normalize (bits : Nat) (v : Int) : Int :=
  if modulus bits / 2 ≤ v then v - modulus bits else v

/-- The value of a non-empty run of digits of a radix (10 or 16), if every byte is such a digit. -/
def digitsValue? (radix : Nat) (ds : List UInt8) : Option Nat :=
  if ds.isEmpty then none
  else ds.foldl (fun acc d => acc.bind fun a =>
    (Text.hexValue? d).bind fun v => if v < radix then some (a * radix + v) else none) (some 0)

/-- Splits off a prefix given as text. -/
def stripPrefix? (pre : String) (bytes : List UInt8) : Option (List UInt8) :=
  let p := pre.toUTF8.toList
  if p.isPrefixOf bytes then some (bytes.drop p.length) else none

/-- Reads an integer literal at a width. -/
def parse (bits : Nat) (text : String) : Except IrError IntConst := do
  let bad (reason : String) : IrError := .malformedLiteral .integer text reason
  if bits = 0 || maxIntBits < bits then throw (bad ("unsupported width i" ++ toString bits))
  let bytes := text.toUTF8.toList
  let value : Int ←
    if text = "true" || text = "false" then
      if bits = 1 then pure (if text = "true" then 1 else 0)
      else throw (bad ("boolean literal for i" ++ toString bits))
    else match stripPrefix? "u0x" bytes with
      | some hex =>
        match digitsValue? 16 hex with
        | some v => pure (v : Int)
        | none => throw (bad "invalid hex digits")
      | none =>
        match stripPrefix? "s0x" bytes with
        | some hex =>
          match digitsValue? 16 hex with
          | some v =>
            if modulus bits ≤ v then throw (bad ("does not fit in i" ++ toString bits))
            else pure (normalize bits v)
          | none => throw (bad "invalid hex digits")
        | none =>
          let (neg, digits) := match bytes with
            | b :: rest => if b == 45 then (true, rest) else (false, bytes)
            | [] => (false, bytes)
          match digitsValue? 10 digits with
          | some v => pure (if neg then -(v : Int) else v)
          | none => throw (bad "invalid decimal digits")
  if value < -(modulus bits / 2) || modulus bits ≤ value then
    throw (bad ("does not fit in i" ++ toString bits))
  pure ⟨bits, normalize bits value⟩

/-- The text of an integer constant: `true`/`false` at width 1, decimal otherwise. -/
def render (i : IntConst) : String :=
  if i.bits = 1 then (if i.value = 0 then "false" else "true") else toString i.value

/-- The width-1 constant of a truth value. -/
def ofBool (b : Bool) : IntConst := ⟨1, normalize 1 (if b then 1 else 0)⟩

end IntConst

end LlvmAsm
