import LlvmAsm.Ir.Type
import LlvmAsm.Ir.Operator
import LlvmAsm.Literal.Integer
import LlvmAsm.Error

/-!
# Constants

Checked constants. Each knows its type (`Const.ty`): literals their own, `null`, `zeroinitializer`
and `undef` the type they were checked against, a character array `[N x i8]`, a block address
`i8*`, a reference to a global the type it is used at, and an expression the type of its result.

The canonical text (`Const.render`) omits the constant's own type; aggregates and expressions
show each operand with its type (`Const.renderTyped`).

`CastOp.accepts` says which casts are valid and `gepResultType` computes the type that a
`getelementptr` yields, both looking through named types.
-/

namespace LlvmAsm

/-- A local's identity: a name, or a number, where `0` also stands for a number not yet given. -/
inductive LocalIdent where
  | named (name : String)
  | anon (id : Nat)
  deriving Repr, DecidableEq, Inhabited

namespace LocalIdent

/-- The text of a local: `%name` or `%N`. -/
def render : LocalIdent → String
  | .named name => Text.localName name
  | .anon id => "%" ++ toString id

/-- The label of a block with this identity: `name:` or `N:`. -/
def label : LocalIdent → String
  | .named name => Text.ident name ++ ":"
  | .anon id => toString id ++ ":"

/-- Whether the local has a name. -/
def isNamed : LocalIdent → Bool
  | .named _ => true
  | .anon _ => false

end LocalIdent

/-- A checked constant. -/
inductive Const where
  | int (i : IntConst)
  | float (f : FloatConst)
  | null (ty : Ty)
  | none
  /-- A struct constant of a (possibly named) struct type; `packed` is that struct's packing. -/
  | struct (ty : Ty) (packed : Bool) (elems : List Const)
  | array (ty : Ty) (elems : List Const)
  | chars (data : List UInt8)
  | vector (ty : Ty) (elems : List Const)
  | zeroInit (ty : Ty)
  | undef (ty : Ty)
  /-- The address of the block of function `func` with identity `block`. -/
  | blockAddress (func : String) (block : LocalIdent)
  /-- A global or function used at type `ty`. -/
  | global (name : String) (ty : Ty)
  | cast (op : CastOp) (value : Const) (target : Ty)
  | binary (op : BinaryOp) (lhs rhs : Const)
  | gep (inBounds : Bool) (elem : Ty) (base : Const) (indices : List Const) (ty : Ty)
  deriving Repr, Inhabited

namespace Const

/-- The type of a constant. -/
def ty : Const → Ty
  | .int i => .int i.bits
  | .float f => .float f.kind
  | .null t => t
  | .none => .token
  | .struct t _ _ => t
  | .array t _ => t
  | .chars data => .array data.length .i8
  | .vector t _ => t
  | .zeroInit t => t
  | .undef t => t
  | .blockAddress _ _ => .ptr .i8
  | .global _ t => t
  | .cast _ _ target => target
  | .binary _ lhs _ => lhs.ty
  | .gep _ _ _ _ t => t

mutual

/-- The canonical text of a constant, without its type. -/
def render : Const → String
  | .int i => i.render
  | .float f => f.render
  | .null _ => "null"
  | .none => "none"
  | .struct _ packed elems =>
    match packed, elems with
    | false, [] => "\x7b\x7d"
    | true, [] => "<\x7b\x7d>"
    | false, _ => "\x7b " ++ renderTypedList elems ++ " \x7d"
    | true, _ => "<\x7b " ++ renderTypedList elems ++ " \x7d>"
  | .array _ elems => "[" ++ renderTypedList elems ++ "]"
  | .vector _ elems => "<" ++ renderTypedList elems ++ ">"
  | .chars data => "c" ++ Text.quote data
  | .zeroInit _ => "zeroinitializer"
  | .undef _ => "undef"
  | .blockAddress func block => "blockaddress(" ++ Text.globalName func ++ ", " ++ block.render ++ ")"
  | .global name _ => Text.globalName name
  | .cast op value target =>
    Keyword.keyword op ++ " (" ++ value.ty.render ++ " " ++ value.render ++ " to " ++ target.render ++ ")"
  | .binary op lhs rhs =>
    Keyword.keyword op ++ " (" ++ lhs.ty.render ++ " " ++ lhs.render ++ ", " ++ rhs.ty.render ++ " " ++
      rhs.render ++ ")"
  | .gep inBounds elem base indices _ =>
    "getelementptr " ++ (if inBounds then "inbounds " else "") ++ "(" ++ elem.render ++ ", " ++
      base.ty.render ++ " " ++ base.render ++ renderIndices indices ++ ")"

/-- Typed constants separated by `, `. -/
def renderTypedList : List Const → String
  | [] => ""
  | [c] => c.ty.render ++ " " ++ c.render
  | c :: cs => c.ty.render ++ " " ++ c.render ++ ", " ++ renderTypedList cs

/-- Typed constants, each after `, `. -/
def renderIndices : List Const → String
  | [] => ""
  | c :: cs => ", " ++ c.ty.render ++ " " ++ c.render ++ renderIndices cs

end

/-- A constant preceded by its type. -/
def renderTyped (c : Const) : String := c.ty.render ++ " " ++ c.render

end Const

/-- Whether a cast from `src` to `dst` is valid: truncation narrows an integer, extension widens
one, pointer-integer casts go between the two, and a bit cast avoids `void`, `label`, `token`
and function types on both sides. Named types are looked through. -/
def CastOp.accepts (table : TypeTable) (op : CastOp) (src dst : Ty) : Bool :=
  let notOpaqueKind : Ty → Bool
    | .void | .label | .token | .func .. => false
    | _ => true
  match op, table.underlying src, table.underlying dst with
  | .trunc, .int a, .int b => b < a
  | .zext, .int a, .int b => a < b
  | .sext, .int a, .int b => a < b
  | .ptrToInt, .pointer .., .int _ => true
  | .intToPtr, .int _, .pointer .. => true
  | .bitcast, a, b => notOpaqueKind a && notOpaqueKind b
  | _, _, _ => false

/-- Walks the indices after the first from `cur`: a struct index must be an integer constant
naming a field, an array or vector index steps to the element type. -/
def gepWalk (table : TypeTable) : Ty → List Const → Except IrError Ty
  | cur, [] => .ok cur
  | cur, index :: rest =>
    match table.underlying cur with
    | .struct _ fields =>
      let field := match index with
        | .int i => if 0 ≤ i.value then fields[i.value.toNat]? else .none
        | _ => .none
      match field with
      | some f => gepWalk table f rest
      | .none => .error (.mismatch "getelementptr struct index"
          ("constant in 0.." ++ toString fields.length) index.renderTyped)
    | .array _ elem => gepWalk table elem rest
    | .vector _ elem => gepWalk table elem rest
    | other => .error (.mismatch "getelementptr index" "aggregate type" other.render)

/-- The type a `getelementptr` on `base` (a pointer to `elem`) with these indices yields: a
pointer, in the base's address space, to the type the indices reach. -/
def gepResultType (table : TypeTable) (elem baseTy : Ty) (indices : List Const) :
    Except IrError Ty := do
  match table.underlying baseTy with
  | .pointer pointee space =>
    if pointee ≠ elem then
      throw (.mismatch "getelementptr base" (Ty.ptr elem).render baseTy.render)
    match indices with
    | first :: rest =>
      match first.ty with
      | .int _ => pure ()
      | other => throw (.mismatch "getelementptr index" "integer type" other.render)
      let reached ← gepWalk table elem rest
      pure (.pointer reached space)
    | [] => pure (.pointer elem space)
  | other => throw (.mismatch "getelementptr base" "pointer type" other.render)

end LlvmAsm
