import LlvmAsm.Ast.Grammar.Type

/-!
# Reading constants and operands

```
const    ::= "@" name | "{" tconsts? "}" | "<" "{" tconsts? "}" ">" | "<" tconsts? ">"
           | "[" tconsts? "]" | "c" string | number | "true" | "false" | "null" | "none"
           | "zeroinitializer" | "undef" | "blockaddress" "(" "@" name "," local ")"
           | "getelementptr" "inbounds"? "(" type "," tconst ("," tconst)* ")"
           | "u0x…" | "s0x…" | castop "(" tconst "to" type ")"
           | binop flag* "(" tconst "," tconst ")"
tconst   ::= type const
value    ::= local | const
```

A *number* starts with `-` or a digit and runs over letters, digits, `.`, `+` and `-`; it is a
floating-point literal when, past an optional `-`, it starts with `0x` or holds `.`, `e` or `E`,
and an integer literal otherwise. A word that starts no constant is reported at its first
character.
-/

namespace LlvmAsm.Ast.Reader

/-- A character of a numeric literal. -/
def isNumberChar (ch : Char) : Bool := ch.isAlphanum || ch = '.' || ch = '+' || ch = '-'

/-- Reads a numeric literal at the cursor; it never fails. -/
def parseNumber : Reader Const := do
  let text := (← get).rest.takeWhile isNumberChar
  advance text.length
  let digits := match text with
    | '-' :: rest => rest
    | _ => text
  let s := String.ofList text
  if digits.take 2 = ['0', 'x'] || digits.any (fun ch => ch = '.' || ch = 'e' || ch = 'E') then
    return .float s
  else return .int s

/-- Consumes one of the flags `nuw`, `nsw` and `exact`, tried in that order, if the next word
is one. -/
def tryFlag : Reader Bool := do
  if ← tryWord "nuw" then return true
  if ← tryWord "nsw" then return true
  tryWord "exact"

/-- Skips the flags `nuw`, `nsw` and `exact`, each consuming a word. -/
def skipFlags : Nat → Reader Unit
  | 0 => pure ()
  | fuel + 1 => do
    if ← tryFlag then skipFlags fuel

mutual

/-- Reads a constant. -/
def parseConstant : Nat → Reader Const
  | 0 => exhausted
  | fuel + 1 => do
    skipBlanks true
    match ← peek with
    | some '@' => return .global (← readGlobalName)
    | some '{' =>
      advance 1
      return .struct false (← parseTypedConstList fuel '}')
    | some '<' =>
      advance 1
      if ← tryChar '{' then
        let fields ← parseTypedConstList fuel '}'
        expect '>'
        return .struct true fields
      return .vector (← parseTypedConstList fuel '>')
    | some '[' =>
      advance 1
      return .array (← parseTypedConstList fuel ']')
    | some ch =>
      if ch = 'c' && (← peekAt 1) = some '"' then
        advance 1
        return .chars (String.ofList (← readRawString))
      else if ch = '-' || isDigitChar ch then parseNumber
      else wordConstant fuel
    | none => wordConstant fuel

/-- Reads a constant that starts with a word. -/
def wordConstant : Nat → Reader Const
  | 0 => exhausted
  | fuel + 1 => do
    skipBlanks true
    let start ← get
    let w ← readWord
    match w with
    | "true" => return .bool true
    | "false" => return .bool false
    | "null" => return .null
    | "none" => return .none
    | "zeroinitializer" => return .zeroInit
    | "undef" => return .undef
    | "blockaddress" =>
      expect '('
      let func ← readGlobalName
      expect ','
      let block ← readLocal
      expect ')'
      return .blockAddress func block
    | "getelementptr" =>
      let inBounds ← tryWord "inbounds"
      expect '('
      let elem ← parseType fuel
      expect ','
      let base ← parseTypedConst fuel
      let indices ← gepIndices fuel
      expect ')'
      return .gep inBounds elem base indices
    | _ =>
      if w.startsWith "u0x" || w.startsWith "s0x" then return .int w
      match (Keyword.ofKeyword? w : Option CastOp) with
      | some op =>
        expect '('
        let value ← parseTypedConst fuel
        expectWord "to"
        let target ← parseType fuel
        expect ')'
        return .cast op value target
      | none =>
        match (Keyword.ofKeyword? w : Option BinaryOp) with
        | some op =>
          skipFlags fuel
          expect '('
          let lhs ← parseTypedConst fuel
          expect ','
          let rhs ← parseTypedConst fuel
          expect ')'
          return .binary op lhs rhs
        | none =>
          set start
          fail ("expected constant but found '" ++ w ++ "'")

/-- Reads a type and then a constant. -/
def parseTypedConst : Nat → Reader TypedConst
  | 0 => exhausted
  | fuel + 1 => do
    let ty ← parseType fuel
    let value ← parseConstant fuel
    return .mk ty value

/-- Reads typed constants up to `close`, after the opening bracket. -/
def parseTypedConstList : Nat → Char → Reader (List TypedConst)
  | 0, _ => exhausted
  | fuel + 1, close => do
    if ← tryChar close then return []
    typedConstListRest fuel close

/-- Reads `tconst ("," tconst)* close`. -/
def typedConstListRest : Nat → Char → Reader (List TypedConst)
  | 0, _ => exhausted
  | fuel + 1, close => do
    let c ← parseTypedConst fuel
    if ← tryChar close then return [c]
    expect ','
    return c :: (← typedConstListRest fuel close)

/-- Reads `("," tconst)*` after the base of a `getelementptr`. -/
def gepIndices : Nat → Reader (List TypedConst)
  | 0 => exhausted
  | fuel + 1 => do
    if ← tryChar ',' then
      let c ← parseTypedConst fuel
      return c :: (← gepIndices fuel)
    return []

end

/-- Reads an operand: a local or a constant. -/
def parseValue (fuel : Nat) : Reader Value := do
  skipBlanks true
  if (← peek) = some '%' then return .localRef (← readLocal)
  return .const (← parseConstant fuel)

/-- Reads a type and then an operand. -/
def parseTypedValue (fuel : Nat) : Reader TypedValue := do
  let ty ← parseType fuel
  let value ← parseValue fuel
  return ⟨ty, value⟩

end LlvmAsm.Ast.Reader
