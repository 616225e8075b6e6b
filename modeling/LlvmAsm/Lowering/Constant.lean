import LlvmAsm.Lowering.Scope

/-!
# Checking constants against their types

`lowerConst s expected c` checks the written constant `c` at the type `expected` and returns the
checked constant, whose type is then `expected` up to non-struct aliases:

* `true`/`false` need `i1`, an integer literal an integer type, a float literal a float type,
  `null` a pointer type and `none` a token, the type looked up through names;
* a struct needs a struct type of the same packing and field count, an array or vector one of
  the same length, and each element is written with a type equivalent to its place's;
* a character array decodes its escapes and needs exactly `[N x i8]`;
* `zeroinitializer` and `undef` take any type;
* a block address needs a function and the type `i8*`, and is queued until the blocks are
  numbered;
* a reference to a global needs the symbol's address type;
* a constant expression checks its operands and then needs its own result type.
-/

namespace LlvmAsm

/-- The identity a written local name stands for before numbering: `%name` is named and `%N` is
anonymous with the number `N`. -/
def LocalIdent.ofName : Ast.LocalName → LocalIdent
  | .name n => .named n
  | .number k => .anon k

namespace Scope

/-- Local text for a mismatch: the context, the expected and the found side as texts. -/
def mismatchAt {α : Type} (context expected found : String) : LowerM α :=
  throw (.mismatch context expected found)

/-- A checked constant expression, kept when its type is equivalent to the expected one. -/
def expressionAt (s : Scope) (expected : Ty) (e : Const) : LowerM Const :=
  if s.types.equivalent e.ty expected then pure e
  else mismatchAt "constant expression" expected.render e.ty.render

mutual

/-- Checks a written constant at an expected type. -/
def lowerConst (s : Scope) (expected : Ty) : Ast.Const → LowerM Const
  | .bool b =>
    match s.types.underlying expected with
    | .int 1 => pure (.int (IntConst.ofBool b))
    | _ => mismatchAt "boolean constant" "i1" expected.render
  | .int text =>
    match s.types.underlying expected with
    | .int bits => do return .int (← LowerM.ofExcept (IntConst.parse bits text))
    | _ => mismatchAt "integer constant" "integer type" expected.render
  | .float text =>
    match s.types.underlying expected with
    | .float kind => do return .float (← LowerM.ofExcept (FloatConst.parse kind text))
    | _ => mismatchAt "floating-point constant" "floating-point type" expected.render
  | .null =>
    match s.types.underlying expected with
    | .pointer .. => pure (.null expected)
    | _ => mismatchAt "null constant" "pointer type" expected.render
  | .none =>
    match s.types.underlying expected with
    | .token => pure .none
    | _ => mismatchAt "none constant" "token" expected.render
  | .struct packed fields =>
    match s.types.underlying expected with
    | .struct p fieldTys =>
      if p = packed && fieldTys.length = fields.length then do
        return .struct expected packed (← s.lowerFields fieldTys fields)
      else
        mismatchAt "struct constant" expected.render
          ((if packed then "packed struct" else "struct") ++ " with " ++ toString fields.length ++ " fields")
    | _ =>
      mismatchAt "struct constant" expected.render
        ((if packed then "packed struct" else "struct") ++ " with " ++ toString fields.length ++ " fields")
  | .array elems =>
    match s.types.underlying expected with
    | .array len elem =>
      if len ≠ elems.length then
        mismatchAt "array constant" expected.render (toString elems.length ++ " elements")
      else do return .array expected (← s.lowerElems "array element" elem elems)
    | _ => mismatchAt "array constant" "array type" expected.render
  | .vector elems =>
    match s.types.underlying expected with
    | .vector len elem =>
      if len ≠ elems.length then
        mismatchAt "vector constant" expected.render (toString elems.length ++ " elements")
      else do return .vector expected (← s.lowerElems "vector element" elem elems)
    | _ => mismatchAt "vector constant" "vector type" expected.render
  | .chars raw =>
    match Text.unescape raw with
    | .error e => throw (.malformedLiteral .characterArray raw e.message)
    | .ok data =>
      let arrTy : Ty := .array data.length .i8
      if s.types.underlying expected ≠ arrTy then
        mismatchAt "character array constant" expected.render arrTy.render
      else pure (.chars data)
  | .zeroInit => pure (.zeroInit expected)
  | .undef => pure (.undef expected)
  | .blockAddress func block => do
    match s.symbol? func with
    | some ⟨.function, _⟩ => pure ()
    | _ => throw (.unresolvedSymbol .function (Text.globalName func))
    if !s.types.equivalent expected (.ptr .i8) then
      mismatchAt "blockaddress constant" (Ty.ptr .i8).render expected.render
    let ident := LocalIdent.ofName block
    modify (·.push ⟨func, ident⟩)
    return .blockAddress func ident
  | .global name => do
    match s.symbol? name with
    | none => throw (.unresolvedSymbol .global (Text.globalName name))
    | some sym =>
      if !s.types.equivalent sym.ty expected then
        mismatchAt ("reference to " ++ Text.globalName name) expected.render sym.ty.render
      return .global name expected
  | .cast op value target => do
    let src ← s.lowerTypedConst value
    let dst ← LowerM.ofExcept (s.lowerType target)
    if !op.accepts s.types src.ty dst then
      mismatchAt (Keyword.keyword op ++ " constant expression")
        ("valid " ++ Keyword.keyword op ++ " source for " ++ dst.render) src.ty.render
    s.expressionAt expected (.cast op src dst)
  | .binary op lhs (.mk rhsWritten rhsValue) => do
    let l ← s.lowerTypedConst lhs
    match s.types.underlying l.ty with
    | .int _ => pure ()
    | _ => mismatchAt (Keyword.keyword op ++ " constant expression") "integer type" l.ty.render
    let rhsTy ← LowerM.ofExcept (s.lowerType rhsWritten)
    if !s.types.equivalent rhsTy l.ty then
      mismatchAt (Keyword.keyword op ++ " constant expression") l.ty.render rhsTy.render
    let r ← s.lowerConst rhsTy rhsValue
    s.expressionAt expected (.binary op l r)
  | .gep inBounds elem base indices => do
    let elemTy ← LowerM.ofExcept (s.lowerType elem)
    let b ← s.lowerTypedConst base
    let idx ← s.lowerTypedConsts indices
    let ty ← LowerM.ofExcept (gepResultType s.types elemTy b.ty idx)
    s.expressionAt expected (.gep inBounds elemTy b idx ty)

/-- Checks a constant written with its type, at that type. -/
def lowerTypedConst (s : Scope) : Ast.TypedConst → LowerM Const
  | .mk ty value => do
    let t ← LowerM.ofExcept (s.lowerType ty)
    s.lowerConst t value

/-- Checks constants written with their types, in order. -/
def lowerTypedConsts (s : Scope) : List Ast.TypedConst → LowerM (List Const)
  | [] => pure []
  | c :: cs => do
    let c' ← s.lowerTypedConst c
    return c' :: (← s.lowerTypedConsts cs)

/-- Checks the elements of an array or vector, each written with a type equivalent to `elem`. -/
def lowerElems (s : Scope) (context : String) (elem : Ty) : List Ast.TypedConst → LowerM (List Const)
  | [] => pure []
  | .mk ty value :: rest => do
    let written ← LowerM.ofExcept (s.lowerType ty)
    if !s.types.equivalent written elem then mismatchAt context elem.render written.render
    let c ← s.lowerConst elem value
    return c :: (← s.lowerElems context elem rest)

/-- Checks the fields of a struct, each written with a type equivalent to its field's. -/
def lowerFields (s : Scope) : List Ty → List Ast.TypedConst → LowerM (List Const)
  | fieldTy :: tys, .mk ty value :: rest => do
    let written ← LowerM.ofExcept (s.lowerType ty)
    if !s.types.equivalent written fieldTy then mismatchAt "struct field" fieldTy.render written.render
    let c ← s.lowerConst fieldTy value
    return c :: (← s.lowerFields tys rest)
  | _, _ => pure []

end

end Scope

end LlvmAsm
