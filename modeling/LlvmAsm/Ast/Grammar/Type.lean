import LlvmAsm.Ast.Cursor

/-!
# Reading types

```
type     ::= base suffix*
base     ::= "%" name | "[" N "x" type "]" | "{" types? "}" | "<" "{" types? "}" ">"
           | "<" N "x" type ">" | "void" | "half" | "float" | "double" | "label" | "token" | "i" N
suffix   ::= "*" | "(" (types ("," "...")? | "...")? ")" | "addrspace" "(" N ")" "*"
```

Suffixes never cross a line feed. A named type written `%N` is the type named by the digits of
`N`. Widths and address spaces must fit 32 bits and lengths 64 bits.

Every rule takes a `fuel` bound on its depth of recursion. Each level of recursion consumes at
least one character per two levels, so `Reader.fuelFor` of the remaining text is always enough;
the exhausted case is never reached on a real input.
-/

namespace LlvmAsm.Ast.Reader

/-- The recursion bound for reading the remaining text. -/
def fuelFor (c : Cursor) : Nat := 4 * (c.rest.length + 1)

/-- The answer when the recursion bound runs out; never reached when the bound comes from
`fuelFor`. -/
def exhausted {α : Type} : Reader α := fail "input nests too deeply"

/-- Whether a word begins a type: a scalar keyword, or `i` followed by digits. -/
def isTypeKeyword (w : String) : Bool :=
  match w.toList with
  | 'i' :: ds => !ds.isEmpty && ds.all isDigitChar
  | _ => w = "void" || w = "half" || w = "float" || w = "double" || w = "label" || w = "token"

/-- Whether the unread text starts with `...`. -/
def atEllipsis : Reader Bool := do
  return (← get).rest.take 3 = ['.', '.', '.']

/-- Reads a scalar type keyword. -/
def scalarType : Reader Ty := do
  let w ← readWord
  match w with
  | "void" => return .void
  | "half" => return .float .half
  | "float" => return .float .float
  | "double" => return .float .double
  | "label" => return .label
  | "token" => return .token
  | _ =>
    if isTypeKeyword w then
      let v := digitsValue (w.toList.drop 1)
      if v < bound32 then return .int v
      else fail ("integer width out of range in '" ++ w ++ "'")
    else fail ("expected type but found '" ++ w ++ "'")

mutual

/-- Reads a type. -/
def parseType : Nat → Reader Ty
  | 0 => exhausted
  | fuel + 1 => do
    skipBlanks true
    let base ← match ← peek with
      | some '%' => do
        match ← readLocal with
        | .name n => pure (Ty.named n)
        | .number k => pure (Ty.named (toString k))
      | some '[' => do
        advance 1
        let len ← readNumber bound64
        expectWord "x"
        let elem ← parseType fuel
        expect ']'
        pure (Ty.array len elem)
      | some '{' => do
        advance 1
        pure (Ty.struct false (← parseTypeList fuel '}'))
      | some '<' => do
        advance 1
        if ← tryChar '{' then
          let fields ← parseTypeList fuel '}'
          expect '>'
          pure (Ty.struct true fields)
        else
          let len ← readNumber bound64
          expectWord "x"
          let elem ← parseType fuel
          expect '>'
          pure (Ty.vector len elem)
      | _ => scalarType
    typeSuffixes fuel base

/-- Reads types up to `close`, after the opening bracket. -/
def parseTypeList : Nat → Char → Reader (List Ty)
  | 0, _ => exhausted
  | fuel + 1, close => do
    if ← tryChar close then return []
    typeListRest fuel close

/-- Reads `type ("," type)* close`. -/
def typeListRest : Nat → Char → Reader (List Ty)
  | 0, _ => exhausted
  | fuel + 1, close => do
    let t ← parseType fuel
    if ← tryChar close then return [t]
    expect ','
    return t :: (← typeListRest fuel close)

/-- Reads the parameter list of a function type after its `(`: the types and whether it ends
in `...`. -/
def funcTypeParams : Nat → Reader (List Ty × Bool)
  | 0 => exhausted
  | fuel + 1 => do
    if ← tryChar ')' then return ([], false)
    funcTypeParamsRest fuel

/-- Reads `(type ",")* (type | "...") ")"`. -/
def funcTypeParamsRest : Nat → Reader (List Ty × Bool)
  | 0 => exhausted
  | fuel + 1 => do
    skipBlanks true
    if ← atEllipsis then
      advance 3
      expect ')'
      return ([], true)
    let t ← parseType fuel
    if ← tryChar ')' then return ([t], false)
    expect ','
    let (ts, variadic) ← funcTypeParamsRest fuel
    return (t :: ts, variadic)

/-- Applies the pointer, function and address-space suffixes on the same line. -/
def typeSuffixes : Nat → Ty → Reader Ty
  | 0, _ => exhausted
  | fuel + 1, ty => do
    skipBlanks false
    match ← peek with
    | some '*' =>
      advance 1
      typeSuffixes fuel (Ty.ptr ty)
    | some '(' =>
      advance 1
      let (params, variadic) ← funcTypeParams fuel
      typeSuffixes fuel (Ty.func ty params variadic)
    | _ =>
      if (← wordAt) = some "addrspace" then
        advance 9
        expect '('
        let space ← readNumber bound32
        expect ')'
        expect '*'
        typeSuffixes fuel (Ty.pointer ty space)
      else return ty

end

end LlvmAsm.Ast.Reader
