import LlvmAsm.Ast.Tree

/-!
# The reading cursor

Reading walks the text's characters once, keeping the byte offset of the next one. Failures carry
that offset and a message; `ReadError.locate` turns the offset into a line and a byte column.

The primitives below are all the grammar rules use:

* blanks are space, tab, line feed, form feed and carriage return, and a `;` comment runs to the
  end of its line; some places stop at a line feed (`skipBlanks false`);
* a *word* is a run of ASCII letters, digits, `_` and `.`; it is read after skipping blanks;
* a *number* is a run of decimal digits below a bound; a failed number leaves the cursor where it
  was;
* a *quoted string* runs to the next `"` with no escapes; its body decodes through
  `Text.unescapeBytes` and must be UTF-8;
* a *name* after a sigil is a quoted string or a run of bare-name bytes.

A failure names what it found at the cursor: the character's first byte shown as a Latin-1
character in quotes, or `end of input`.
-/

namespace LlvmAsm.Ast

/-- The unread characters and the byte offset of the first of them. -/
structure Cursor where
  rest : List Char
  pos : Nat

/-- A reading failure at a byte offset. -/
structure ReadError where
  pos : Nat
  message : String

/-- Reading with a cursor, failing with a `ReadError`. -/
abbrev Reader := StateT Cursor (Except ReadError)

namespace Cursor

/-- Moves past one character. -/
def next (c : Cursor) : Cursor :=
  match c.rest with
  | [] => c
  | ch :: rest => ⟨rest, c.pos + ch.utf8Size⟩

/-- Moves past `n` characters. -/
def advance (c : Cursor) : Nat → Cursor
  | 0 => c
  | n + 1 => (c.next).advance n

/-- A line feed. -/
def newline : Char := '\n'

/-- Blank characters: space, tab, line feed, form feed, carriage return. -/
def isBlank (ch : Char) : Bool :=
  ch = ' ' || ch = '\t' || ch = '\n' || ch = '\x0c' || ch = '\r'

/-- Skips blanks and comments; at a line feed it stops unless `newlines`. `inComment` says the
cursor is inside a comment, which ends before its line feed. -/
def skipBlanksFrom (newlines inComment : Bool) : List Char → Nat → Cursor
  | [], pos => ⟨[], pos⟩
  | ch :: rest, pos =>
    if inComment then
      if ch = '\n' then
        if newlines then skipBlanksFrom newlines false rest (pos + 1) else ⟨ch :: rest, pos⟩
      else skipBlanksFrom newlines true rest (pos + ch.utf8Size)
    else if ch = ';' then skipBlanksFrom newlines true rest (pos + 1)
    else if isBlank ch then
      if ch = '\n' && !newlines then ⟨ch :: rest, pos⟩
      else skipBlanksFrom newlines false rest (pos + 1)
    else ⟨ch :: rest, pos⟩

/-- Skips blanks and comments, across line feeds when `newlines`. -/
def skipBlanks (newlines : Bool) (c : Cursor) : Cursor := skipBlanksFrom newlines false c.rest c.pos

end Cursor

/-- The first byte of a character's UTF-8 encoding. -/
def firstByte (ch : Char) : Nat :=
  let n := ch.toNat
  if n < 0x80 then n
  else if n < 0x800 then 0xC0 + n / 0x40
  else if n < 0x10000 then 0xE0 + n / 0x1000
  else 0xF0 + n / 0x40000

/-- A character of a word: an ASCII letter or digit, `_` or `.`. -/
def isWordChar (ch : Char) : Bool := ch.isAlphanum || ch = '_' || ch = '.'

/-- A byte of a bare name, as a character. -/
def isNameChar (ch : Char) : Bool := ch.toNat < 128 && Text.isNameByte ch.toNat.toUInt8

/-- An ASCII decimal digit. -/
def isDigitChar (ch : Char) : Bool := ch.isDigit

/-- The value of a run of decimal digits. -/
def digitsValue (ds : List Char) : Nat := ds.foldl (fun acc d => acc * 10 + (d.toNat - 48)) 0

/-- Turns a byte offset into a line and a byte column, both counted from one. -/
def ReadError.locate (text : String) (e : ReadError) : IrError :=
  let consumed := text.toUTF8.toList.take e.pos
  let line := consumed.count 10 + 1
  let column := (consumed.reverse.takeWhile (· != 10)).length + 1
  .parse line column e.message

namespace Reader

/-- The character at the cursor. -/
def peek : Reader (Option Char) := do return (← get).rest.head?

/-- The character `k` places after the cursor. -/
def peekAt (k : Nat) : Reader (Option Char) := do return (← get).rest[k]?

/-- Moves past `n` characters. -/
def advance (n : Nat) : Reader Unit := modify (·.advance n)

/-- Fails at the cursor. -/
def fail {α : Type} (message : String) : Reader α := do throw ⟨(← get).pos, message⟩

/-- What the cursor sees, for messages. -/
def found : Reader String := do
  match ← peek with
  | some ch => return "'" ++ (Char.ofNat (firstByte ch)).toString ++ "'"
  | none => return "end of input"

/-- Skips blanks and comments, across line feeds when `newlines`. -/
def skipBlanks (newlines : Bool) : Reader Unit := modify (·.skipBlanks newlines)

/-- Whether only blanks and a comment remain on the line. -/
def atLineEnd : Reader Bool := do
  skipBlanks false
  let ch ← peek
  return ch = none || ch = some '\n'

/-- Consumes `ch` after blanks, if it is there. -/
def tryChar (ch : Char) : Reader Bool := do
  skipBlanks true
  if (← peek) = some ch then advance 1; return true
  else return false

/-- Consumes `ch` after blanks, or fails. -/
def expect (ch : Char) : Reader Unit := do
  unless ← tryChar ch do
    fail ("expected '" ++ ch.toString ++ "' but found " ++ (← found))

/-- The word at the cursor, without skipping or consuming. -/
def wordAt : Reader (Option String) := do
  let w := (← get).rest.takeWhile isWordChar
  return if w.isEmpty then none else some (String.ofList w)

/-- The word after blanks, without consuming it. -/
def peekWord : Reader (Option String) := do
  skipBlanks true
  wordAt

/-- Reads a word after blanks. -/
def readWord : Reader String := do
  match ← peekWord with
  | some w => advance w.length; return w
  | none => fail ("expected keyword but found " ++ (← found))

/-- Consumes the word `w` after blanks, if the next word is exactly `w`. -/
def tryWord (w : String) : Reader Bool := do
  if (← peekWord) = some w then advance w.length; return true
  else return false

/-- Consumes the word `w` after blanks, or fails. -/
def expectWord (w : String) : Reader Unit := do
  unless ← tryWord w do
    fail ("expected '" ++ w ++ "' but found " ++ (← found))

/-- Reads a decimal number below `bound` after blanks; on failure the cursor stays at the
number's start. -/
def readNumber (bound : Nat) : Reader Nat := do
  skipBlanks true
  let ds := (← get).rest.takeWhile isDigitChar
  let v := digitsValue ds
  if ds.isEmpty || bound ≤ v then fail ("expected number but found " ++ (← found))
  else advance ds.length; return v

/-- Numbers that fit 32 bits. -/
def bound32 : Nat := Nat.pow 2 32

/-- Numbers that fit 64 bits. -/
def bound64 : Nat := Nat.pow 2 64

/-- Reads the body of a quoted string at the cursor, escapes untouched. -/
def readRawString : Reader (List Char) := do
  if (← peek) ≠ some '"' then fail ("expected string but found " ++ (← found))
  let body := ((← get).rest.drop 1).takeWhile (· ≠ '"')
  if ((← get).rest.drop (1 + body.length)).isEmpty then fail "unterminated string"
  advance (body.length + 2)
  return body

/-- Reads a quoted string after blanks: its body decoded through escapes, as UTF-8. -/
def readString : Reader String := do
  skipBlanks true
  let raw ← readRawString
  match Text.unescapeBytes (String.ofList raw).toUTF8.toList with
  | .error e => fail e.message
  | .ok bytes =>
    match String.fromUTF8? (ByteArray.mk bytes.toArray) with
    | some s => return s
    | none => fail "string is not valid UTF-8"

/-- Reads a name at the cursor: a quoted string or a run of bare-name characters. -/
def readName : Reader String := do
  if (← peek) = some '"' then return ← readString
  let n := (← get).rest.takeWhile isNameChar
  if n.isEmpty then fail ("expected name but found " ++ (← found))
  advance n.length
  return String.ofList n

/-- Reads `@name`. -/
def readGlobalName : Reader String := do
  expect '@'
  readName

/-- Reads `$name`. -/
def readComdatName : Reader String := do
  expect '$'
  readName

/-- Reads `%name` or `%N`. -/
def readLocal : Reader LocalName := do
  expect '%'
  match ← peek with
  | some ch =>
    if isDigitChar ch then return .number (← readNumber bound32)
    else return .name (← readName)
  | none => return .name (← readName)

end Reader

end LlvmAsm.Ast
