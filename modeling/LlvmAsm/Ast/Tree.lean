import LlvmAsm.Ir.Type
import LlvmAsm.Ir.Operator
import LlvmAsm.Ir.Attribute

/-!
# The module as written

The tree that reading produces: the module's items in the order they appear, with names and
literals still as text. Types are already `Ty` values (a type expression means the same before
and after checking); constants, values and instructions keep what was written until
`Lowering` checks them against their types.
-/

namespace LlvmAsm.Ast

/-- A local as written: `%name` (bare or quoted) or `%N`. -/
inductive LocalName where
  | name (s : String)
  | number (n : Nat)
  deriving Repr, DecidableEq

/-- The text of a local name: `%name` or `%N`. -/
def LocalName.render : LocalName → String
  | .name s => Text.localName s
  | .number n => "%" ++ toString n

mutual

/-- A constant as written. -/
inductive Const where
  | bool (b : Bool)
  | int (text : String)
  | float (text : String)
  | null
  | none
  | struct (packed : Bool) (fields : List TypedConst)
  | array (elems : List TypedConst)
  | chars (raw : String)
  | vector (elems : List TypedConst)
  | zeroInit
  | undef
  | blockAddress (func : String) (block : LocalName)
  | global (name : String)
  | cast (op : CastOp) (value : TypedConst) (target : Ty)
  | binary (op : BinaryOp) (lhs rhs : TypedConst)
  | gep (inBounds : Bool) (elem : Ty) (base : TypedConst) (indices : List TypedConst)

/-- A constant with the type written before it. -/
inductive TypedConst where
  | mk (ty : Ty) (value : Const)

end

/-- The written type of a typed constant. -/
def TypedConst.ty : TypedConst → Ty
  | .mk ty _ => ty

/-- The constant of a typed constant. -/
def TypedConst.value : TypedConst → Const
  | .mk _ value => value

/-- An operand as written: a local or a constant. -/
inductive Value where
  | localRef (name : LocalName)
  | const (c : Const)

/-- An operand with the type written before it. -/
structure TypedValue where
  ty : Ty
  value : Value

/-- A call: the written type (a return type or a function type), the callee and the arguments. -/
structure Call where
  ty : Ty
  callee : Value
  args : List TypedValue

/-- What an instruction does. -/
inductive InstKind where
  | binary (op : BinaryOp) (lhs : TypedValue) (rhs : Value)
  | icmp (pred : IntPredicate) (lhs : TypedValue) (rhs : Value)
  | alloca (elem : Ty)
  | load (ty : Ty) (ptr : TypedValue)
  | store (value ptr : TypedValue)
  | phi (ty : Ty) (incoming : List (Value × LocalName))
  | call (c : Call)

/-- An instruction with the local it defines, if one is written. -/
structure Instruction where
  result : Option LocalName
  kind : InstKind

/-- How a block ends. -/
inductive Terminator where
  | ret (value : Option TypedValue)
  | br (target : LocalName)
  | condBr (cond : TypedValue) (thenBlock elseBlock : LocalName)
  | unreachable
  | invoke (result : Option LocalName) (call : Call) (normal unwind : LocalName)

/-- A basic block: an optional label, instructions and a terminator. -/
structure Block where
  label : Option LocalName
  insts : List Instruction
  term : Terminator

/-- A parameter: type, attributes and an optional name. -/
structure Param where
  ty : Ty
  attrs : List Attribute
  name : Option LocalName

/-- A comdat clause: `comdat` (the owner's own name) or `comdat($name)`. -/
inductive ComdatRef where
  | implicit
  | named (name : String)
  deriving Repr, DecidableEq

/-- Everything about a function but its body. -/
structure Header where
  name : String
  linkage : Option Linkage := .none
  preemption : Option Preemption := .none
  visibility : Option Visibility := .none
  dll : Option DllStorage := .none
  callingConv : Option CallingConv := .none
  returnAttrs : List Attribute := []
  ret : Ty
  params : List Param := []
  variadic : Bool := false
  unnamedAddr : Option UnnamedAddr := .none
  funcAttrs : List Attribute := []
  sectionName : Option String := .none
  comdat : Option ComdatRef := .none
  gc : Option String := .none
  prefixData : Option TypedConst := .none
  prologue : Option TypedConst := .none
  personality : Option TypedConst := .none

/-- `uselistorder T v, { i, j, … }`. -/
structure UseListOrder where
  value : TypedValue
  indices : List Nat

/-- A function body: blocks and use-list orders. -/
structure Body where
  blocks : List Block
  useLists : List UseListOrder

/-- A function: declared (no body) or defined. -/
structure Function where
  header : Header
  metadata : List MetadataAttachment
  body : Option Body

/-- A named type definition; no body for an opaque type. -/
structure TypeDef where
  name : String
  body : Option Ty

/-- A global variable. -/
structure Global where
  name : String
  linkage : Option Linkage := .none
  preemption : Option Preemption := .none
  visibility : Option Visibility := .none
  dll : Option DllStorage := .none
  unnamedAddr : Option UnnamedAddr := .none
  isConstant : Bool := false
  contentTy : Ty := .void
  init : Option Const := .none
  sectionName : Option String := .none
  comdat : Option ComdatRef := .none
  align : Option Nat := .none

/-- A module: its header strings and its items by kind, each in the order written. -/
structure Module where
  sourceFilename : Option String := .none
  dataLayout : Option String := .none
  targetTriple : Option String := .none
  typeDefs : List TypeDef := []
  comdats : List ComdatDef := []
  globals : List Global := []
  funcs : List Function := []
  attrGroups : List AttrGroupDef := []

end LlvmAsm.Ast
