import LlvmAsm.Error
import LlvmAsm.Text.Quoted
import LlvmAsm.Decimal.Read
import LlvmAsm.Literal.Integer

/-!
# Floating-point constants

A floating-point constant is a bit pattern of one of three kinds: `half` (binary16), `float`
(binary32) or `double` (binary64). Its literal text is

* `0xH` with up to four hex digits: the half pattern itself (half only, and half needs it);
* `0x` with up to sixteen hex digits: a double pattern;
* decimal text: the double nearest to it.

A `float` constant takes the double only when the double is exactly a single value: converting to
single and back gives the same pattern (a NaN must be quiet with its low 29 payload bits clear).

A half constant is shown as `0xH` and four uppercase hex digits. The others are shown through the
double they widen to: a non-finite double as `0x` and its sixteen uppercase hex digits, a finite one
by its shortest digits (`Decimal.shortest`) laid out as `doubleLayout` says.
-/

namespace LlvmAsm

open LlvmAsm.Binary

/-- The kinds of floating-point type. -/
inductive FloatKind where
  | half
  | float
  | double
  deriving Repr, DecidableEq

namespace FloatKind

/-- The keyword of a kind. -/
def name : FloatKind → String
  | .half => "half"
  | .float => "float"
  | .double => "double"

/-- The binary format of a kind. -/
def format : FloatKind → Format
  | .half => .half
  | .float => .single
  | .double => .double

end FloatKind

/-- How shortest digits are laid out as text. A value with decimal exponent `E`
(`10^(E-1) ≤ |x| < 10^E`) in `[positionalFrom, positionalTo]` is written with a point among its
digits and as many zeros as that needs; any other value as one digit, a point, the remaining
digits, the mark and the exponent (a minus sign only when negative, no padding). Both forms show
at least `minFraction` digits after the point, padding with zeros. -/
structure DecimalLayout where
  positionalFrom : Int
  positionalTo : Int
  exponentMark : String
  minFraction : Nat

/-- Doubles are positional from `1e-4` up to below `1e16`, and always show a fraction digit:
`0.0001`, `1000000000000000.0`, `1.0e16`, `9.999e-5`. -/
def doubleLayout : DecimalLayout := ⟨-3, 16, "e", 1⟩

/-- `n` zeros. -/
def zeros (n : Nat) : String := String.ofList (List.replicate n '0')

/-- Lays out digits `c · 10^e` (no trailing zero in `c`) of a value with decimal exponent `mag`. -/
def DecimalLayout.render (l : DecimalLayout) (c : Nat) (e : Int) (mag : Int) : String :=
  let s := toString c
  let len := s.length
  let point : Int := len + e
  let pad (frac : String) : String := frac ++ zeros (l.minFraction - frac.length)
  if l.positionalFrom ≤ mag && mag ≤ l.positionalTo then
    if point ≤ 0 then "0." ++ pad (zeros (-point).toNat ++ s)
    else if point < len then
      String.ofList (s.toList.take point.toNat) ++ "." ++ pad (String.ofList (s.toList.drop point.toNat))
    else s ++ zeros (point.toNat - len) ++ "." ++ pad ""
  else
    String.ofList (s.toList.take 1) ++ "." ++ pad (String.ofList (s.toList.drop 1)) ++
      l.exponentMark ++ toString (point - 1)

/-- The text of a double pattern. -/
def renderDouble (bits : Nat) : String :=
  match decode .double bits with
  | .finite neg m q =>
    let sign := if neg then "-" else ""
    if m = 0 then sign ++ "0." ++ zeros doubleLayout.minFraction
    else
      let (c, e) := Decimal.shortest m q (isBinadeStart .double bits)
      let (num, den) := scaleByTwo m q
      sign ++ doubleLayout.render c e (Decimal.decimalExponent num den)
  | _ => "0x" ++ Text.hexFixed Text.hexDigitUpper 16 bits

/-- A floating-point constant: a kind and a bit pattern of its format. -/
structure FloatConst where
  kind : FloatKind
  bits : Nat
  deriving Repr, DecidableEq

namespace FloatConst

/-- A hex field read as an unsigned number: an optional `+` and one or more hex digits. -/
def readHexField (digits : List UInt8) : Except String Nat :=
  let body := match digits with
    | b :: rest => if b == 43 && !rest.isEmpty then rest else digits
    | [] => []
  if digits.isEmpty then .error "cannot parse integer from empty string"
  else
    match body.foldl (fun acc d => acc.bind fun a => (Text.hexValue? d).map (a * 16 + ·)) (some 0) with
    | some v => .ok v
    | none => .error "invalid digit found in string"

/-- The constant of a kind holding a double pattern, if the kind holds it exactly. -/
def ofDouble (kind : FloatKind) (bits : Nat) : Option FloatConst :=
  match kind with
  | .double => some ⟨.double, bits⟩
  | .float =>
    let narrow := convert .double .single bits
    if convert .single .double narrow = bits then some ⟨.float, narrow⟩ else none
  | .half => none

/-- Reads a floating-point literal of a kind. -/
def parse (kind : FloatKind) (text : String) : Except IrError FloatConst := do
  let bad (reason : String) : IrError := .malformedLiteral .floatingPoint text reason
  let bytes := text.toUTF8.toList
  match IntConst.stripPrefix? "0xH" bytes with
  | some hex =>
    if kind ≠ .half then throw (bad ("0xH literal for " ++ kind.name))
    if 4 < hex.length then throw (bad "too many hex digits")
    match readHexField hex with
    | .ok v => pure ⟨.half, v⟩
    | .error m => throw (bad m)
  | none =>
    if kind = .half then throw (bad "half literals must use the 0xH form")
    let double ← match IntConst.stripPrefix? "0x" bytes with
      | some hex =>
        if hex.head? == some 75 || hex.head? == some 76 || hex.head? == some 77 then
          throw (bad "unsupported extended-precision literal")
        if 16 < hex.length then throw (bad "too many hex digits")
        match readHexField hex with
        | .ok v => pure v
        | .error m => throw (bad m)
      | none =>
        match Decimal.readBinary64 text with
        | .ok v => pure v
        | .error e => throw (bad e.message)
    match ofDouble kind double with
    | some f => pure f
    | none => throw (bad ("not exactly representable as " ++ kind.name))

/-- The double a float or double constant widens to; none for half. -/
def toDouble (f : FloatConst) : Option Nat :=
  match f.kind with
  | .double => some f.bits
  | .float => some (convert .single .double f.bits)
  | .half => none

/-- The text of a floating-point constant. -/
def render (f : FloatConst) : String :=
  match f.toDouble with
  | some d => renderDouble d
  | none => "0xH" ++ Text.hexFixed Text.hexDigitUpper 4 f.bits

end FloatConst

end LlvmAsm
