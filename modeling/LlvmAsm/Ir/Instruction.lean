import LlvmAsm.Ir.Constant
import LlvmAsm.Ir.Attribute

/-!
# Instructions and blocks

Within a function every local (parameter, block, instruction result) has a *slot*, its index in
the function's table of identities. Operands, branch targets and phi blocks refer to slots, so
numbering the anonymous locals changes only the table, and every use prints the number its local
ends with.

Rendering takes that table. An instruction whose result is *numbered* (every instruction but a
store and a call returning `void`) is shown as `%x = …`.
-/

namespace LlvmAsm

/-- The signature of a function: return type, parameter types and whether it takes more. -/
structure FuncSig where
  ret : Ty
  params : List Ty
  variadic : Bool
  deriving Repr, DecidableEq, Inhabited

/-- The function type of a signature. -/
def FuncSig.toTy (s : FuncSig) : Ty := .func s.ret s.params s.variadic

/-- The table of identities of a function's locals, by slot. -/
abbrev LocalTable := Array LocalIdent

/-- The identity in a slot. -/
def LocalTable.ident (t : LocalTable) (slot : Nat) : LocalIdent := t[slot]?.getD (.anon 0)

/-- An operand: a local used at a type, or a constant. -/
inductive Value where
  | reg (slot : Nat) (ty : Ty)
  | const (c : Const)
  deriving Repr, Inhabited

namespace Value

/-- The type of an operand. -/
def ty : Value → Ty
  | .reg _ t => t
  | .const c => c.ty

/-- The text of an operand. -/
def render (locals : LocalTable) : Value → String
  | .reg slot _ => (locals.ident slot).render
  | .const c => c.render

/-- An operand preceded by its type. -/
def renderTyped (locals : LocalTable) (v : Value) : String := v.ty.render ++ " " ++ v.render locals

end Value

/-- A call: the callee's signature, the callee and the arguments. -/
structure Call where
  sig : FuncSig
  callee : Value
  args : List Value
  deriving Repr, Inhabited

/-- The text of a call after its opcode: the return type (or the whole signature when it takes
more arguments), the callee and the typed arguments. -/
def Call.render (locals : LocalTable) (c : Call) : String :=
  (if c.sig.variadic then c.sig.toTy.render else c.sig.ret.render) ++ " " ++ c.callee.render locals ++
    "(" ++ ", ".intercalate (c.args.map (·.renderTyped locals)) ++ ")"

/-- What an instruction does. -/
inductive InstKind where
  | binary (op : BinaryOp) (lhs rhs : Value)
  | icmp (pred : IntPredicate) (lhs rhs : Value)
  | alloca (elem : Ty)
  | load (ty : Ty) (ptr : Value)
  | store (value ptr : Value)
  | phi (ty : Ty) (incoming : List (Value × Nat))
  | call (c : Call)
  deriving Repr, Inhabited

/-- An instruction; every instruction but a store has a result slot. -/
structure Instruction where
  result : Option Nat
  kind : InstKind
  deriving Repr, Inhabited

/-- The slot that numbering visits: the result of an instruction other than a call returning
`void`. -/
def Instruction.numberedSlot (i : Instruction) : Option Nat :=
  match i.kind with
  | .call c => if c.sig.ret.isVoid then none else i.result
  | _ => i.result

/-- The text of an instruction. -/
def Instruction.render (locals : LocalTable) (i : Instruction) : String :=
  let lhs := match i.numberedSlot with
    | some slot => (locals.ident slot).render ++ " = "
    | none => ""
  lhs ++ match i.kind with
    | .binary op l r => Keyword.keyword op ++ " " ++ l.renderTyped locals ++ ", " ++ r.render locals
    | .icmp pred l r => "icmp " ++ Keyword.keyword pred ++ " " ++ l.renderTyped locals ++ ", " ++ r.render locals
    | .alloca elem => "alloca " ++ elem.render
    | .load ty ptr => "load " ++ ty.render ++ ", " ++ ptr.renderTyped locals
    | .store v ptr => "store " ++ v.renderTyped locals ++ ", " ++ ptr.renderTyped locals
    | .phi ty incoming =>
      "phi " ++ ty.render ++ " " ++ ", ".intercalate (incoming.map fun (v, b) =>
        "[ " ++ v.render locals ++ ", " ++ (locals.ident b).render ++ " ]")
    | .call c => "call " ++ c.render locals

/-- How a block ends. -/
inductive Terminator where
  | ret (value : Option Value)
  | br (target : Nat)
  | condBr (cond : Value) (thenBlock elseBlock : Nat)
  | unreachable
  | invoke (result : Nat) (call : Call) (normal unwind : Nat)
  deriving Repr, Inhabited

/-- The slot that numbering visits: the result of an invoke not returning `void`. -/
def Terminator.numberedSlot : Terminator → Option Nat
  | .invoke result c _ _ => if c.sig.ret.isVoid then none else some result
  | _ => none

/-- The text of a terminator. -/
def Terminator.render (locals : LocalTable) (t : Terminator) : String :=
  match t with
  | .ret none => "ret void"
  | .ret (some v) => "ret " ++ v.renderTyped locals
  | .br target => "br label " ++ (locals.ident target).render
  | .condBr c a b =>
    "br " ++ c.renderTyped locals ++ ", label " ++ (locals.ident a).render ++ ", label " ++
      (locals.ident b).render
  | .unreachable => "unreachable"
  | .invoke _ c normal unwind =>
    (match t.numberedSlot with
      | some slot => (locals.ident slot).render ++ " = "
      | none => "") ++
    "invoke " ++ c.render locals ++ " to label " ++ (locals.ident normal).render ++ " unwind label " ++
      (locals.ident unwind).render

/-- A basic block: its label's slot, its instructions and its terminator. -/
structure Block where
  label : Nat
  insts : List Instruction
  term : Terminator
  deriving Repr, Inhabited

/-- The text of a block: its label, then each instruction and the terminator on a line of its
own after a tab. -/
def Block.render (locals : LocalTable) (b : Block) : String :=
  (locals.ident b.label).label ++ String.join (b.insts.map fun i => "\n\t" ++ i.render locals) ++
    "\n\t" ++ b.term.render locals

/-- `uselistorder T v, { i, j }`. -/
structure UseListOrder where
  value : Value
  indices : List Nat
  deriving Repr, Inhabited

/-- The text of a use-list order. -/
def UseListOrder.render (locals : LocalTable) (u : UseListOrder) : String :=
  "uselistorder " ++ u.value.renderTyped locals ++ ", \x7b " ++
    ", ".intercalate (u.indices.map toString) ++ " \x7d"

end LlvmAsm
