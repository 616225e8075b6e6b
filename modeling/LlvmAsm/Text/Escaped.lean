import LlvmAsm.Text.Printable
import LlvmAsm.Text.GraphemeExtend

/-!
# Literal text shown in messages

Messages about a malformed literal show its text between double quotes. Inside them, NUL, tab,
carriage return, line feed, backslash and the double quote take a backslash escape (`\0 \t \r \n
\\ \"`); a character that extends the grapheme before it (past U+02FF), or that is not printable,
is written `\u{h}` with its code point in lowercase hex and no leading zeros; every other
character, the single quote included, stands as it is.
-/

namespace LlvmAsm.Text

/-- Lowercase hex digits of a number, without leading zeros (`0` for zero). -/
def hexLower (n : Nat) : List Char := Nat.toDigits 16 n

/-- Whether a character is written as a code-point escape. -/
def needsCodeEscape (c : Char) : Bool :=
  (0x2FF < c.toNat && isGraphemeExtend c) || !isPrintable c

/-- The characters one character is shown as. -/
def escapeChar (c : Char) : List Char :=
  if c = '\x00' then ['\\', '0']
  else if c = '\t' then ['\\', 't']
  else if c = '\r' then ['\\', 'r']
  else if c = '\n' then ['\\', 'n']
  else if c = '\\' then ['\\', '\\']
  else if c = '"' then ['\\', '"']
  else if needsCodeEscape c then ['\\', 'u', '\x7b'] ++ hexLower c.toNat ++ ['\x7d']
  else [c]

/-- A text between double quotes, escaped for a message. -/
def escapedLiteral (s : String) : String :=
  String.ofList ('"' :: s.toList.flatMap escapeChar ++ ['"'])

end LlvmAsm.Text
