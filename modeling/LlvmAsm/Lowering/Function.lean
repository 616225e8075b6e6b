import LlvmAsm.Lowering.Constant

/-!
# Checking functions

A function header becomes a `Function` with its signature, its qualifiers, its comdat and its
checked prefix, prologue and personality constants. A body is checked in two passes.

The first pass (`declareBlock`) defines every local the body defines, in text order: the
parameters, then per block its label, the results of its instructions and the result of an
`invoke`. Each local gets a slot in the function's table of identities, and each written name a
key to that slot and its type, so an operand may name a local defined further down. A local
written `%N` keeps `N` and sets the next implicit number to `N + 1`; an unnamed local that takes
part in numbering gets the key of the next implicit number and an identity still to be numbered.
The result of an instruction of type `void` takes a slot but no key.

The second pass checks every instruction and terminator against the keys: an operand's written
type must be equivalent to its local's type, a branch target must be a label, a call's arguments
must fit its callee's signature.

A failure anywhere in a function is reported inside the function's name (`IrError.within`).
-/

namespace LlvmAsm

/-- The locals of a function being checked: the table of identities by slot, the slot and type of
each key written or given, and the number the next unnamed local takes. -/
structure Locals where
  func : String
  table : LocalTable := #[]
  entries : List (Ast.LocalName × Nat × Ty) := []
  nextId : Nat := 0
  deriving Repr

namespace Locals

/-- Adds a slot holding `ident`. -/
def fresh (l : Locals) (ident : LocalIdent) : Nat × Locals :=
  (l.table.size, { l with table := l.table.push ident })

/-- Adds a slot for a local defined under `key`; a key may be defined once. -/
def bind (l : Locals) (key : Ast.LocalName) (ident : LocalIdent) (ty : Ty) :
    Except IrError (Nat × Locals) :=
  if (l.entries.lookup key).isSome then .error (.redefinition .localValue key.render)
  else
    let (slot, l) := l.fresh ident
    .ok (slot, { l with entries := (key, slot, ty) :: l.entries })

/-- Defines a local of type `ty`, written with `name` or unnamed. An unnamed local that is
`numbered` takes the key of the next implicit number; one that is not takes a slot only. -/
def define (l : Locals) (name : Option Ast.LocalName) (ty : Ty) (numbered : Bool) :
    Except IrError (Nat × Locals) :=
  match name with
  | some (.name n) => l.bind (.name n) (.named n) ty
  | some (.number k) => { l with nextId := min (k + 1) maxLocalId }.bind (.number k) (.anon k) ty
  | none =>
    if numbered then
      if l.nextId = maxLocalId then .error .idsExhausted
      else { l with nextId := l.nextId + 1 }.bind (.number l.nextId) (.anon 0) ty
    else .ok (l.fresh (.anon 0))

/-- The slot and type of a written name. -/
def get (l : Locals) (name : Ast.LocalName) : Except IrError (Nat × Ty) :=
  match l.entries.lookup name with
  | some entry => .ok entry
  | none => .error (.unresolvedLocal l.func name.render)

/-- The slot of a branch target, which must be defined with the type `label` itself. -/
def block (l : Locals) (name : Ast.LocalName) : Except IrError Nat := do
  let (slot, ty) ← l.get name
  if ty ≠ .label then
    throw (.mismatch ("branch target " ++ (l.table.ident slot).render) Ty.label.render ty.render)
  pure slot

/-- Defines the parameters in order, each with its lowered type. -/
def defineParams (l : Locals) : List (Ast.Param × Ty) → Except IrError (List Nat × Locals)
  | [] => .ok ([], l)
  | (p, ty) :: rest => do
    let (slot, l) ← l.define p.name ty true
    let (slots, l) ← l.defineParams rest
    pure (slot :: slots, l)

/-- Defines the result of an instruction or invoke of type `ty`. A `void` result may not be named
and takes a slot but no number. -/
def defineResult (l : Locals) (name : Option Ast.LocalName) (ty : Ty) :
    Except IrError (Nat × Locals) :=
  if ty.isVoid then
    match name with
    | some n => .error (.mismatch ("definition of " ++ n.render) "non-void result" Ty.void.render)
    | none => l.define none ty false
  else l.define name ty true

end Locals

/-- The slots the first pass gave one block: its label, the result of each instruction (none for
a store) and the result of its terminator (an invoke's). -/
structure DeclaredBlock where
  label : Nat
  results : List (Option Nat)
  termResult : Option Nat
  deriving Repr

namespace Scope

/-- The signature of a callee: the written type when it is a function type, otherwise a
signature returning the written type and taking the arguments' written types. -/
def callSignature (s : Scope) (c : Ast.Call) : Except IrError FuncSig := do
  match ← s.lowerType c.ty with
  | .func ret params variadic => pure ⟨ret, params, variadic⟩
  | ret => pure ⟨ret, ← s.lowerTypes (c.args.map (·.ty)), false⟩

/-- The type of an instruction's result; none for a store, which defines nothing. -/
def resultType (s : Scope) : Ast.InstKind → Except IrError (Option Ty)
  | .binary _ lhs _ => some <$> s.lowerType lhs.ty
  | .icmp .. => pure (some .i1)
  | .alloca elem => do return some (.ptr (← s.lowerType elem))
  | .load ty _ => some <$> s.lowerType ty
  | .phi ty _ => some <$> s.lowerType ty
  | .store .. => pure none
  | .call c => do return some (← s.callSignature c).ret

/-- First pass over an instruction: defines its result; a store may not name one. -/
def declareInst (s : Scope) (l : Locals) (i : Ast.Instruction) :
    Except IrError (Option Nat × Locals) := do
  match ← s.resultType i.kind with
  | none =>
    match i.result with
    | some n => throw (.mismatch ("definition of " ++ n.render) "value-producing instruction" "store")
    | none => pure (none, l)
  | some ty => do
    let (slot, l) ← l.defineResult i.result ty
    pure (some slot, l)

/-- First pass over the instructions of a block: defines their results. -/
def declareInsts (s : Scope) (l : Locals) :
    List Ast.Instruction → Except IrError (List (Option Nat) × Locals)
  | [] => .ok ([], l)
  | i :: rest => do
    let (result, l) ← s.declareInst l i
    let (results, l) ← s.declareInsts l rest
    pure (result :: results, l)

/-- First pass over a terminator: defines an invoke's result. -/
def declareTerm (s : Scope) (l : Locals) : Ast.Terminator → Except IrError (Option Nat × Locals)
  | .invoke result c _ _ => do
    let sig ← s.callSignature c
    let (slot, l) ← l.defineResult result sig.ret
    pure (some slot, l)
  | _ => pure (none, l)

/-- First pass over a block: defines its label, its results and its invoke's result. -/
def declareBlock (s : Scope) (l : Locals) (b : Ast.Block) : Except IrError (DeclaredBlock × Locals) := do
  let (label, l) ← l.define b.label .label true
  let (results, l) ← s.declareInsts l b.insts
  let (termResult, l) ← s.declareTerm l b.term
  pure (⟨label, results, termResult⟩, l)

/-- First pass over the blocks of a body, in order. -/
def declareBlocks (s : Scope) (l : Locals) :
    List Ast.Block → Except IrError (List DeclaredBlock × Locals)
  | [] => .ok ([], l)
  | b :: rest => do
    let (d, l) ← s.declareBlock l b
    let (ds, l) ← s.declareBlocks l rest
    pure (d :: ds, l)

/-- First pass over a body: the parameters, at the types of the signature, then the blocks. -/
def declareBody (s : Scope) (h : Ast.Header) (sig : FuncSig) (blocks : List Ast.Block) :
    Except IrError (List Nat × List DeclaredBlock × Locals) := do
  let (slots, l) ← Locals.defineParams { func := h.name } (h.params.zip sig.params)
  let (declared, l) ← s.declareBlocks l blocks
  pure (slots, declared, l)

/-- An operand at the type `expected`: a local of an equivalent type, kept at the type written at
the use, or a constant checked at that type. -/
def lowerValue (s : Scope) (l : Locals) (expected : Ty) : Ast.Value → LowerM Value
  | .localRef name => do
    let (slot, ty) ← LowerM.ofExcept (l.get name)
    if !s.types.equivalent ty expected then
      mismatchAt ("use of " ++ name.render) expected.render ty.render
    return .reg slot expected
  | .const c => do return .const (← s.lowerConst expected c)

/-- An operand at the type written before it. -/
def lowerTypedValue (s : Scope) (l : Locals) (v : Ast.TypedValue) : LowerM Value := do
  let ty ← LowerM.ofExcept (s.lowerType v.ty)
  s.lowerValue l ty v.value

/-- A call: the callee at the address type of its signature, then the arguments, which must be as
many as the parameters (at least as many for a variadic callee) and fit them in type. -/
def lowerCall (s : Scope) (l : Locals) (c : Ast.Call) : LowerM Call := do
  let sig ← LowerM.ofExcept (s.callSignature c)
  let callee ← s.lowerValue l (.ptr sig.toTy) c.callee
  let args ← c.args.mapM (s.lowerTypedValue l)
  let arityOk := if sig.variadic then sig.params.length ≤ args.length else args.length = sig.params.length
  let typesOk := (args.zip sig.params).all fun (a, p) => s.types.equivalent a.ty p
  if !arityOk || !typesOk then
    mismatchAt ("call to " ++ callee.render l.table) sig.toTy.render
      ("(" ++ ", ".intercalate (args.map (·.ty.render)) ++ ")")
  return ⟨sig, callee, args⟩

/-- Checks that `ptr` is the address of a `ty`. -/
def checkPointee (s : Scope) (ptr : Value) (ty : Ty) (context : String) : LowerM Unit :=
  let refuse : LowerM Unit := mismatchAt (context ++ " address") (Ty.ptr ty).render ptr.ty.render
  match s.types.underlying ptr.ty with
  | .pointer elem _ => if s.types.equivalent elem ty then pure () else refuse
  | _ => refuse

/-- Second pass over an instruction, whose result slot the first pass gave. -/
def lowerInst (s : Scope) (l : Locals) (result : Option Nat) : Ast.InstKind → LowerM Instruction
  | .binary op lhs rhs => do
    let a ← s.lowerTypedValue l lhs
    match s.types.underlying a.ty with
    | .int _ => pure ()
    | _ => mismatchAt (Keyword.keyword op ++ " operand") "integer type" a.ty.render
    let b ← s.lowerValue l a.ty rhs
    return ⟨result, .binary op a b⟩
  | .icmp pred lhs rhs => do
    let a ← s.lowerTypedValue l lhs
    match s.types.underlying a.ty with
    | .int _ => pure ()
    | .pointer .. => pure ()
    | _ => mismatchAt "icmp operand" "integer or pointer type" a.ty.render
    let b ← s.lowerValue l a.ty rhs
    return ⟨result, .icmp pred a b⟩
  | .alloca elem => do return ⟨result, .alloca (← LowerM.ofExcept (s.lowerType elem))⟩
  | .load ty ptr => do
    let t ← LowerM.ofExcept (s.lowerType ty)
    let p ← s.lowerTypedValue l ptr
    s.checkPointee p t "load"
    return ⟨result, .load t p⟩
  | .store value ptr => do
    let v ← s.lowerTypedValue l value
    let p ← s.lowerTypedValue l ptr
    s.checkPointee p v.ty "store"
    return ⟨result, .store v p⟩
  | .phi ty incoming => do
    let t ← LowerM.ofExcept (s.lowerType ty)
    let pairs ← incoming.mapM fun (v, b) => do
      let v ← s.lowerValue l t v
      let b ← LowerM.ofExcept (l.block b)
      pure (v, b)
    return ⟨result, .phi t pairs⟩
  | .call c => do return ⟨result, .call (← s.lowerCall l c)⟩

/-- Second pass over a terminator; `result` is the slot the first pass gave an invoke's result. -/
def lowerTerm (s : Scope) (l : Locals) (retTy : Ty) (result : Option Nat) :
    Ast.Terminator → LowerM Terminator
  | .ret none =>
    if !retTy.isVoid then mismatchAt "ret" retTy.render Ty.void.render else pure (.ret none)
  | .ret (some value) => do
    let v ← s.lowerTypedValue l value
    if !s.types.equivalent v.ty retTy then mismatchAt "ret" retTy.render v.ty.render
    return .ret (some v)
  | .br target => do return .br (← LowerM.ofExcept (l.block target))
  | .condBr cond thenBlock elseBlock => do
    let c ← s.lowerTypedValue l cond
    if !s.types.equivalent c.ty .i1 then mismatchAt "branch condition" Ty.i1.render c.ty.render
    let a ← LowerM.ofExcept (l.block thenBlock)
    let b ← LowerM.ofExcept (l.block elseBlock)
    return .condBr c a b
  | .unreachable => pure .unreachable
  | .invoke _ call normal unwind => do
    let c ← s.lowerCall l call
    let n ← LowerM.ofExcept (l.block normal)
    let u ← LowerM.ofExcept (l.block unwind)
    return .invoke (result.getD 0) c n u

/-- Second pass over a block. -/
def lowerBlock (s : Scope) (l : Locals) (retTy : Ty) (b : Ast.Block) (d : DeclaredBlock) :
    LowerM Block := do
  let insts ← (b.insts.zip d.results).mapM fun (i, r) => s.lowerInst l r i.kind
  let term ← s.lowerTerm l retTy d.termResult b.term
  return ⟨d.label, insts, term⟩

/-- A function header: the signature, the qualifiers, the comdat and the checked prefix,
prologue and personality. Parameter `i` has slot `i`, holding the identity written for it. -/
def lowerHeader (s : Scope) (h : Ast.Header) : LowerM Function := do
  let sig ← LowerM.ofExcept (s.lowerSignature h)
  let comdat ← h.comdat.mapM fun c => LowerM.ofExcept (s.lowerComdat h.name c)
  let prefixData ← h.prefixData.mapM s.lowerTypedConst
  let prologue ← h.prologue.mapM s.lowerTypedConst
  let personality ← h.personality.mapM s.lowerTypedConst
  let params := (h.params.zip sig.params).zipIdx.map fun ((p, ty), i) => (⟨ty, p.attrs, i⟩ : Param)
  let placeholders := h.params.map fun p => (p.name.map LocalIdent.ofName).getD (.anon 0)
  return { name := h.name, sig, params, locals := placeholders.toArray, linkage := h.linkage,
           preemption := h.preemption, visibility := h.visibility, dll := h.dll,
           callingConv := h.callingConv, returnAttrs := h.returnAttrs, unnamedAddr := h.unnamedAddr,
           funcAttrs := h.funcAttrs, sectionName := h.sectionName, comdat, gc := h.gc, prefixData,
           prologue, personality }

/-- A function: its header, then for a definition both passes over its body and its use-list
orders. -/
def lowerFunctionIn (s : Scope) (f : Ast.Function) : LowerM Function := do
  let func ← s.lowerHeader f.header
  let func := { func with metadata := f.metadata }
  match f.body with
  | none => return func
  | some body =>
    let (slots, declared, l) ← LowerM.ofExcept (s.declareBody f.header func.sig body.blocks)
    let params := (func.params.zip slots).map fun (p, slot) => { p with slot }
    let blocks ← (body.blocks.zip declared).mapM fun (b, d) => s.lowerBlock l func.sig.ret b d
    let useLists ← body.useLists.mapM fun u => do
      return (⟨← s.lowerTypedValue l u.value, u.indices⟩ : UseListOrder)
    return { func with params, blocks, locals := l.table, useLists }

/-- A function, a failure being reported inside its name. -/
def lowerFunction (s : Scope) (f : Ast.Function) : LowerM Function :=
  tryCatch (s.lowerFunctionIn f) fun e => throw (e.within f.header.name)

end Scope

end LlvmAsm
