import LlvmAsm.Ast.Grammar.Constant

/-!
# Reading functions

```
declare  ::= "declare" attachment* linkage? header
define   ::= "define" linkage? header attachment* body
header   ::= (retattr | preemption | visibility | dll | cconv | "cc" N)* type "@" name params
             (fnattr | "unnamed_addr" | "local_unnamed_addr" | "section" string | "comdat" clause
              | "gc" string | ("prefix" | "prologue" | "personality") tconst)*
params   ::= "(" ")" | "(" (param ",")* (param | "...") ")"
param    ::= type attribute* local?
body     ::= "{" (("uselistorder" tvalue "," "{" N ("," N)* "}") | block)+ "}"
block    ::= label? (("%" local "=")? instruction)* terminator
```

The words before the return type stop at the first type keyword or type bracket; an unknown word
there is a return attribute. The words after the parameters stop at the end of the line, at `{`
or at `!`; an unknown word there is a function attribute. Only the first block may go without a
label, and a body needs at least one block.

Loops take a `steps` bound on their iterations; each iteration consumes a character, so the length
of the text is enough.
-/

namespace LlvmAsm.Ast.Reader

/-- The number of characters up to and including the parenthesis that closes the one the text
starts with, given the current depth and count. -/
def balancedEnd : List Char → Nat → Nat → Option Nat
  | [], _, _ => none
  | ch :: rest, depth, n =>
    if ch = '(' then balancedEnd rest (depth + 1) (n + 1)
    else if ch = ')' then
      if depth ≤ 1 then some (n + 1) else balancedEnd rest (depth - 1) (n + 1)
    else balancedEnd rest depth (n + 1)

/-- Reads a parenthesised attribute argument at the cursor, keeping its text. -/
def readBalanced : Reader String := do
  let rest := (← get).rest
  match balancedEnd rest 0 0 with
  | some n =>
    advance n
    return String.ofList ((rest.take (n - 1)).drop 1)
  | none =>
    advance rest.length
    fail "unbalanced parentheses in attribute"

/-- Reads an attribute. -/
def parseAttribute : Reader Attribute := do
  skipBlanks true
  match ← peek with
  | some '#' =>
    advance 1
    return .group (← readNumber bound32)
  | some '"' =>
    let key ← readString
    if (← peek) = some '=' then
      advance 1
      return .pair key (some (← readString))
    return .pair key none
  | _ =>
    let name ← readWord
    if name = "align" then return .align (← readNumber bound64)
    if (← peek) = some '(' then return .keyword name (some (← readBalanced))
    return .keyword name none

/-- Reads metadata attachments on the current line. -/
def metadataAttachments : Nat → Reader (List MetadataAttachment)
  | 0 => exhausted
  | steps + 1 => do
    skipBlanks false
    if (← peek) ≠ some '!' then return []
    advance 1
    let kind ← readName
    expect '!'
    let node ← readNumber bound32
    return ⟨kind, node⟩ :: (← metadataAttachments steps)

/-- Reads a keyword of a vocabulary after blanks, if the next word is one. -/
def tryKeyword (α : Type) [Keyword α] : Reader (Option α) := do
  match (← peekWord).bind (Keyword.ofKeyword? (α := α)) with
  | some k =>
    advance (Keyword.keyword k).length
    return some k
  | none => return none

/-- Reads a comdat clause after the word `comdat`: `($name)` or nothing. -/
def comdatClause : Reader ComdatRef := do
  if (← peek) = some '(' then
    advance 1
    let name ← readComdatName
    expect ')'
    return .named name
  return .implicit

/-- Reads the words before a function's return type. -/
def headerPrefix : Nat → Header → Reader Header
  | 0, _ => exhausted
  | steps + 1, h => do
    skipBlanks true
    match ← peek with
    | some '%' | some '[' | some '<' | some '{' => return h
    | some '"' =>
      let a ← parseAttribute
      headerPrefix steps { h with returnAttrs := h.returnAttrs ++ [a] }
    | _ =>
      match ← wordAt with
      | none => fail ("expected return type but found " ++ (← found))
      | some w =>
        if isTypeKeyword w then return h
        match (Keyword.ofKeyword? w : Option Preemption) with
        | some p =>
          advance w.length
          headerPrefix steps { h with preemption := some p }
        | none =>
        match (Keyword.ofKeyword? w : Option Visibility) with
        | some v =>
          advance w.length
          headerPrefix steps { h with visibility := some v }
        | none =>
        match (Keyword.ofKeyword? w : Option DllStorage) with
        | some d =>
          advance w.length
          headerPrefix steps { h with dll := some d }
        | none =>
        match CallingConv.ofKeyword? w with
        | some cc =>
          advance w.length
          headerPrefix steps { h with callingConv := some cc }
        | none =>
          if w = "cc" then
            advance 2
            let n ← readNumber bound32
            headerPrefix steps { h with callingConv := some (CallingConv.ofNumber n) }
          else
            let a ← parseAttribute
            headerPrefix steps { h with returnAttrs := h.returnAttrs ++ [a] }

/-- Reads the attributes of a parameter, up to `,`, `)`, `%` or the end. -/
def paramAttrs : Nat → Reader (List Attribute)
  | 0 => exhausted
  | steps + 1 => do
    skipBlanks true
    match ← peek with
    | some ',' | some ')' | some '%' | none => return []
    | _ =>
      let a ← parseAttribute
      return a :: (← paramAttrs steps)

/-- Reads parameters after the first, the `(` and possible `)` already handled. -/
def paramsRest (fuel : Nat) : Nat → Reader (List Param × Bool)
  | 0 => exhausted
  | steps + 1 => do
    skipBlanks true
    if ← atEllipsis then
      advance 3
      expect ')'
      return ([], true)
    let ty ← parseType fuel
    let attrs ← paramAttrs steps
    let name ← if (← peek) = some '%' then some <$> readLocal else pure none
    let p : Param := ⟨ty, attrs, name⟩
    if ← tryChar ')' then return ([p], false)
    expect ','
    let (ps, variadic) ← paramsRest fuel steps
    return (p :: ps, variadic)

/-- Reads a parameter list: the parameters and whether it ends in `...`. -/
def parseParams (fuel steps : Nat) : Reader (List Param × Bool) := do
  expect '('
  if ← tryChar ')' then return ([], false)
  paramsRest fuel steps

/-- Reads the words after a function's parameters, up to the end of the line, `{` or `!`. -/
def headerSuffix (fuel : Nat) : Nat → Header → Reader Header
  | 0, _ => exhausted
  | steps + 1, h => do
    skipBlanks false
    match ← peek with
    | none | some '\n' | some '{' | some '!' => return h
    | some '#' | some '"' =>
      let a ← parseAttribute
      headerSuffix fuel steps { h with funcAttrs := h.funcAttrs ++ [a] }
    | _ =>
      match ← wordAt with
      | some "unnamed_addr" =>
        advance 12
        headerSuffix fuel steps { h with unnamedAddr := some .global }
      | some "local_unnamed_addr" =>
        advance 18
        headerSuffix fuel steps { h with unnamedAddr := some .localOnly }
      | some "section" =>
        advance 7
        let s ← readString
        headerSuffix fuel steps { h with sectionName := some s }
      | some "comdat" =>
        advance 6
        let c ← comdatClause
        headerSuffix fuel steps { h with comdat := some c }
      | some "gc" =>
        advance 2
        let s ← readString
        headerSuffix fuel steps { h with gc := some s }
      | some "prefix" =>
        advance 6
        let c ← parseTypedConst fuel
        headerSuffix fuel steps { h with prefixData := some c }
      | some "prologue" =>
        advance 8
        let c ← parseTypedConst fuel
        headerSuffix fuel steps { h with prologue := some c }
      | some "personality" =>
        advance 11
        let c ← parseTypedConst fuel
        headerSuffix fuel steps { h with personality := some c }
      | _ =>
        let a ← parseAttribute
        headerSuffix fuel steps { h with funcAttrs := h.funcAttrs ++ [a] }

/-- Reads a function header; `linkage` was read before it. -/
def parseHeader (fuel steps : Nat) (linkage : Option Linkage) : Reader Header := do
  let h ← headerPrefix steps { name := "", ret := .void, linkage := linkage }
  let ret ← parseType fuel
  let name ← readGlobalName
  let (params, variadic) ← parseParams fuel steps
  headerSuffix fuel steps { h with ret := ret, name := name, params := params, variadic := variadic }

/-- Reads call arguments after the first, the `(` and possible `)` already handled. -/
def callArgs (fuel : Nat) : Nat → Reader (List TypedValue)
  | 0 => exhausted
  | steps + 1 => do
    let a ← parseTypedValue fuel
    if ← tryChar ')' then return [a]
    expect ','
    return a :: (← callArgs fuel steps)

/-- Reads a call: the written type, the callee and the arguments. -/
def parseCall (fuel steps : Nat) : Reader Call := do
  let ty ← parseType fuel
  let callee ← parseValue fuel
  expect '('
  let args ← if ← tryChar ')' then pure [] else callArgs fuel steps
  return ⟨ty, callee, args⟩

/-- Reads the incoming pairs of a phi, `[v, %b]` separated by commas. -/
def phiIncoming (fuel : Nat) : Nat → Reader (List (Value × LocalName))
  | 0 => exhausted
  | steps + 1 => do
    expect '['
    let v ← parseValue fuel
    expect ','
    let b ← readLocal
    expect ']'
    if ← tryChar ',' then return (v, b) :: (← phiIncoming fuel steps)
    return [(v, b)]

/-- Reads what an instruction does, after its opcode. -/
def parseInstKind (fuel steps : Nat) (opcode : String) : Reader InstKind := do
  match (Keyword.ofKeyword? opcode : Option BinaryOp) with
  | some op =>
    skipFlags steps
    let lhs ← parseTypedValue fuel
    expect ','
    let rhs ← parseValue fuel
    return .binary op lhs rhs
  | none =>
    match opcode with
    | "icmp" =>
      let w ← readWord
      match (Keyword.ofKeyword? w : Option IntPredicate) with
      | none => fail ("unknown icmp predicate '" ++ w ++ "'")
      | some pred =>
        let lhs ← parseTypedValue fuel
        expect ','
        let rhs ← parseValue fuel
        return .icmp pred lhs rhs
    | "alloca" => return .alloca (← parseType fuel)
    | "load" =>
      let ty ← parseType fuel
      expect ','
      let ptr ← parseTypedValue fuel
      return .load ty ptr
    | "store" =>
      let value ← parseTypedValue fuel
      expect ','
      let ptr ← parseTypedValue fuel
      return .store value ptr
    | "phi" =>
      let ty ← parseType fuel
      let incoming ← phiIncoming fuel steps
      return .phi ty incoming
    | "call" => return .call (← parseCall fuel steps)
    | _ => fail ("unknown instruction '" ++ opcode ++ "'")

/-- Reads a terminator that is not `invoke`, after its opcode. -/
def parseTerminator (fuel : Nat) (opcode : String) : Reader Terminator := do
  match opcode with
  | "ret" =>
    let ty ← parseType fuel
    if ty = .void then return .ret none
    return .ret (some ⟨ty, ← parseValue fuel⟩)
  | "br" =>
    if ← tryWord "label" then return .br (← readLocal)
    let cond ← parseTypedValue fuel
    expect ','
    expectWord "label"
    let thenBlock ← readLocal
    expect ','
    expectWord "label"
    let elseBlock ← readLocal
    return .condBr cond thenBlock elseBlock
  | _ => return .unreachable

/-- Reads instructions up to and including the block's terminator; `insts` holds the
instructions read so far, the last first. -/
def blockRest (fuel : Nat) (label : Option LocalName) : Nat → List Instruction → Reader Block
  | 0, _ => exhausted
  | steps + 1, insts => do
    skipBlanks true
    let result ← if (← peek) = some '%' then
        let r ← readLocal
        expect '='
        pure (some r)
      else pure none
    let opcode ← readWord
    match opcode with
    | "invoke" =>
      let call ← parseCall fuel steps
      expectWord "to"
      expectWord "label"
      let normal ← readLocal
      expectWord "unwind"
      expectWord "label"
      let unwind ← readLocal
      return ⟨label, insts.reverse, .invoke result call normal unwind⟩
    | "ret" | "br" | "unreachable" =>
      if result.isSome then fail ("'" ++ opcode ++ "' does not produce a value")
      return ⟨label, insts.reverse, ← parseTerminator fuel opcode⟩
    | _ =>
      let kind ← parseInstKind fuel steps opcode
      blockRest fuel label steps (⟨result, kind⟩ :: insts)

/-- Reads a block label (`name:`, `N:` or `"name":`), leaving the cursor where it was when the
text is not one. -/
def tryLabel : Reader (Option LocalName) := do
  skipBlanks true
  let start ← get
  let label ← match ← peek with
    | some '"' => pure (some (LocalName.name (← readString)))
    | some ch =>
      if isDigitChar ch then
        let ds := start.rest.takeWhile isDigitChar
        advance ds.length
        let v := digitsValue ds
        if v < bound32 then pure (some (LocalName.number v))
        else fail ("label " ++ String.ofList ds ++ " out of range")
      else if isNameChar ch then pure (some (LocalName.name (← readName)))
      else pure none
    | none => pure none
  match label with
  | none => return none
  | some l =>
    if (← peek) = some ':' then
      advance 1
      return some l
    set start
    return none

/-- Reads the indices of a use-list order after its `{`. -/
def useListIndices : Nat → Reader (List Nat)
  | 0 => exhausted
  | steps + 1 => do
    let n ← readNumber bound64
    if ← tryChar '}' then return [n]
    expect ','
    return n :: (← useListIndices steps)

/-- Reads a use-list order after the word `uselistorder`. -/
def parseUseListOrder (fuel steps : Nat) : Reader UseListOrder := do
  let value ← parseTypedValue fuel
  expect ','
  expect '{'
  return ⟨value, ← useListIndices steps⟩

/-- Reads the blocks and use-list orders of a body up to its `}`; `blocks` and `uses` hold those
read so far, the last first. -/
def bodyItems (fuel : Nat) : Nat → List Block → List UseListOrder → Reader Body
  | 0, _, _ => exhausted
  | steps + 1, blocks, uses => do
    skipBlanks true
    match ← peek with
    | some '}' =>
      advance 1
      if blocks.isEmpty then fail "function body has no basic blocks"
      return ⟨blocks.reverse, uses.reverse⟩
    | none => fail "unterminated function body"
    | _ =>
      if ← tryWord "uselistorder" then
        let u ← parseUseListOrder fuel steps
        bodyItems fuel steps blocks (u :: uses)
      else
        let label ← tryLabel
        if label.isNone && !blocks.isEmpty then fail "expected basic block label"
        let b ← blockRest fuel label steps []
        bodyItems fuel steps (b :: blocks) uses

/-- Reads a function body. -/
def parseBody (fuel steps : Nat) : Reader Body := do
  expect '{'
  bodyItems fuel steps [] []

/-- Reads a declaration after the word `declare`. -/
def parseDeclare (fuel steps : Nat) : Reader Function := do
  let metadata ← metadataAttachments steps
  let linkage ← tryKeyword Linkage
  let header ← parseHeader fuel steps linkage
  return ⟨header, metadata, none⟩

/-- Reads a definition after the word `define`. -/
def parseDefine (fuel steps : Nat) : Reader Function := do
  let linkage ← tryKeyword Linkage
  let header ← parseHeader fuel steps linkage
  let metadata ← metadataAttachments steps
  let body ← parseBody fuel steps
  return ⟨header, metadata, some body⟩

end LlvmAsm.Ast.Reader
