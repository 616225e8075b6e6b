/-!
# Names and quoted strings

How names and byte strings are written in assembly text. A name made of letters, digits and
`$ . _ -`, not starting with a digit, is written bare; any other name, and every byte string, is
written between double quotes with `"`, `\` and the bytes outside `0x20..0x7E` as `\XX`
(two uppercase hex digits).

The reading side, `unescape`, decodes a quoted body: `\\` is one backslash, `\XX` (hex digits of
either case) is one byte, and any other backslash is refused at its byte offset. Writing and
reading are inverse (`unescape (quoteBody d) = .ok d`).
-/

namespace LlvmAsm.Text

/-- A byte that may open a bare name: an ASCII letter or one of `- $ . _`. -/
def isNameStart (b : UInt8) : Bool :=
  (65 ≤ b && b ≤ 90) || (97 ≤ b && b ≤ 122) || b == 45 || b == 36 || b == 46 || b == 95

/-- An ASCII decimal digit. -/
def isDigit (b : UInt8) : Bool := 48 ≤ b && b ≤ 57

/-- A byte that may continue a bare name: a name-start byte or a digit. -/
def isNameByte (b : UInt8) : Bool := isNameStart b || isDigit b

/-- A name is written bare when it is non-empty, opens with a name-start byte and continues
with name bytes only. -/
def isBare (name : String) : Bool :=
  match name.toUTF8.toList with
  | [] => false
  | b :: rest => isNameStart b && rest.all isNameByte

/-- The uppercase hex digit of a value below sixteen. -/
def hexDigitUpper (n : Nat) : Char :=
  if n < 10 then Char.ofNat (48 + n) else Char.ofNat (55 + n)

/-- The lowercase hex digit of a value below sixteen. -/
def hexDigitLower (n : Nat) : Char :=
  if n < 10 then Char.ofNat (48 + n) else Char.ofNat (87 + n)

/-- A number as exactly `width` hex digits (its low `4 · width` bits), most significant first,
each digit written by `digit`. -/
def hexFixed (digit : Nat → Char) (width n : Nat) : String :=
  String.ofList ((List.range width).reverse.map fun i => digit (n / Nat.pow 16 i % 16))

/-- The value of an ASCII hex digit of either case. -/
def hexValue? (b : UInt8) : Option Nat :=
  if 48 ≤ b && b ≤ 57 then some (b.toNat - 48)
  else if 65 ≤ b && b ≤ 70 then some (b.toNat - 55)
  else if 97 ≤ b && b ≤ 102 then some (b.toNat - 87)
  else none

/-- A byte that stands for itself inside quotes: printable ASCII other than `"` and `\`. -/
def isPlainByte (b : UInt8) : Bool := 0x20 ≤ b && b < 0x7F && b != 34 && b != 92

/-- The characters one byte is written as inside quotes. -/
def quoteByte (b : UInt8) : List Char :=
  if isPlainByte b then [Char.ofNat b.toNat]
  else ['\\', hexDigitUpper (b.toNat / 16), hexDigitUpper (b.toNat % 16)]

/-- The text between the quotes for a byte string. -/
def quoteBody (data : List UInt8) : List Char := data.flatMap quoteByte

/-- A byte string between double quotes. -/
def quote (data : List UInt8) : String := String.ofList ('"' :: quoteBody data ++ ['"'])

/-- A name as written: bare when it may be, quoted otherwise. -/
def ident (name : String) : String :=
  if isBare name then name else quote name.toUTF8.toList

/-- A global name, marked by `@`. -/
def globalName (name : String) : String := "@" ++ ident name

/-- A local name, marked by `%`. -/
def localName (name : String) : String := "%" ++ ident name

/-- A comdat name, marked by `$`. -/
def comdatName (name : String) : String := "$" ++ ident name

/-- The offset of a backslash that opens neither `\\` nor two hex digits. -/
structure BadEscape where
  offset : Nat
  deriving Repr, DecidableEq

/-- The wording of a refused escape. -/
def BadEscape.message (e : BadEscape) : String :=
  "invalid escape at byte " ++ toString e.offset

/-- Decodes a quoted body whose first byte sits at byte `offset` of the whole body. -/
def unescapeFrom (offset : Nat) : List UInt8 → Except BadEscape (List UInt8)
  | [] => .ok []
  | b :: rest =>
    if b != 92 then (unescapeFrom (offset + 1) rest).map (b :: ·)
    else match rest with
      | [] => .error ⟨offset⟩
      | c :: rest' =>
        if c == 92 then (unescapeFrom (offset + 2) rest').map (92 :: ·)
        else match rest' with
          | [] => .error ⟨offset⟩
          | d :: rest'' =>
            match hexValue? c, hexValue? d with
            | some h, some l => (unescapeFrom (offset + 3) rest'').map ((h * 16 + l).toUInt8 :: ·)
            | _, _ => .error ⟨offset⟩

/-- Decodes the body of a quoted string, given as its bytes. -/
def unescapeBytes (body : List UInt8) : Except BadEscape (List UInt8) := unescapeFrom 0 body

/-- Decodes the body of a quoted string. -/
def unescape (body : String) : Except BadEscape (List UInt8) := unescapeBytes body.toUTF8.toList

end LlvmAsm.Text
