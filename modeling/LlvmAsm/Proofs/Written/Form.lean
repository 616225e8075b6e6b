import LlvmAsm.Proofs.Reading.Constants
import LlvmAsm.Proofs.Sites

/-!
# `Proofs.Written.Form` — the written form of a checked module

`Module.print` writes the canonical text of a checked module. `Module.toAst` is the written module
that text stands for, built the way the printer writes each part:

* every local is written with its name or with the number it ends with (`LocalTable.name`), and
  every block with its label; a declaration writes only the names of its named parameters;
* an operand written after its type shows the operand's own type (`Value.toTypedAst`), so a
  constant checked at an alias is written at the type it has;
* a call shows its whole signature only when it takes more arguments (`Call.toAst`);
* a global with neither linkage nor initializer is written `external`;
* a comdat clause is the bare word `comdat` for the item's own comdat.

Checking the written form gives the module back up to what its text does not show
(`Module.canonical`): such a global becomes `external`, and a declaration's unnamed parameters lose
the numbers written for them. The two print the same (`Module.print_canonical`).

A call written without its signature reads back with its arguments' types as parameters and a
function type as the whole signature; `Call.KeepsSignature` says that this gives the same
signature.
-/

namespace LlvmAsm

/-- A local's identity without its number: what a declaration's text shows of a parameter. -/
def LocalIdent.forgetNumber : LocalIdent → LocalIdent
  | .named name => .named name
  | .anon _ => .anon 0

/-- The written name of the local in a slot. -/
def LocalTable.name (t : LocalTable) (slot : Nat) : Ast.LocalName := (t.ident slot).toName

namespace Value

/-- The written form of an operand. -/
def toAst (t : LocalTable) : Value → Ast.Value
  | .reg slot _ => .localRef (t.name slot)
  | .const c => .const c.toAst

/-- An operand written after its own type. -/
def toTypedAst (t : LocalTable) (v : Value) : Ast.TypedValue := ⟨v.ty, v.toAst t⟩

end Value

/-- The written form of a call: the whole signature when it takes more arguments, otherwise the
return type; then the callee and the arguments, each after its type. -/
def Call.toAst (t : LocalTable) (c : Call) : Ast.Call :=
  ⟨if c.sig.variadic then c.sig.toTy else c.sig.ret, c.callee.toAst t, c.args.map (·.toTypedAst t)⟩

/-- **A call keeps its signature in writing**: it takes more arguments, so its text shows the
whole signature, or its parameters are its arguments' types and it does not return a function
type, so reading its return type and arguments back gives the signature again. -/
def Call.KeepsSignature (c : Call) : Prop :=
  c.sig.variadic = true ∨
    (c.sig.params = c.args.map Value.ty ∧ ∀ ret params variadic, c.sig.ret ≠ .func ret params variadic)

/-- The written form of what an instruction does. -/
def InstKind.toAst (t : LocalTable) : InstKind → Ast.InstKind
  | .binary op lhs rhs => .binary op (lhs.toTypedAst t) (rhs.toAst t)
  | .icmp pred lhs rhs => .icmp pred (lhs.toTypedAst t) (rhs.toAst t)
  | .alloca elem => .alloca elem
  | .load ty ptr => .load ty (ptr.toTypedAst t)
  | .store value ptr => .store (value.toTypedAst t) (ptr.toTypedAst t)
  | .phi ty incoming => .phi ty (incoming.map fun pair => (pair.1.toAst t, t.name pair.2))
  | .call c => .call (c.toAst t)

/-- The written form of an instruction: its numbered result is written with its name. -/
def Instruction.toAst (t : LocalTable) (i : Instruction) : Ast.Instruction :=
  ⟨i.numberedSlot.map t.name, i.kind.toAst t⟩

/-- The written form of a terminator. -/
def Terminator.toAst (t : LocalTable) (term : Terminator) : Ast.Terminator :=
  match term with
  | .ret value => .ret (value.map (·.toTypedAst t))
  | .br target => .br (t.name target)
  | .condBr cond thenBlock elseBlock => .condBr (cond.toTypedAst t) (t.name thenBlock) (t.name elseBlock)
  | .unreachable => .unreachable
  | .invoke _ c normal unwind =>
    .invoke (term.numberedSlot.map t.name) (c.toAst t) (t.name normal) (t.name unwind)

/-- The written form of a block: always labelled. -/
def Block.toAst (t : LocalTable) (b : Block) : Ast.Block :=
  ⟨some (t.name b.label), b.insts.map (·.toAst t), b.term.toAst t⟩

/-- The written form of a use-list order. -/
def UseListOrder.toAst (t : LocalTable) (u : UseListOrder) : Ast.UseListOrder :=
  ⟨u.value.toTypedAst t, u.indices⟩

/-- The comdat clause written for an item named `owner`: the bare clause for its own comdat. -/
def ComdatDef.clause (owner : String) (c : ComdatDef) : Ast.ComdatRef :=
  if c.name = owner then .implicit else .named c.name

/-- A checked constant written after its type. -/
def Const.toTypedAst (c : Const) : Ast.TypedConst := .mk c.ty c.toAst

/-- The constant an operand is, if it is one. -/
def Value.const? : Value → Option Const
  | .reg .. => none
  | .const c => some c

/-- The call an instruction makes, if it is one. -/
def InstKind.call? : InstKind → Option Call
  | .call c => some c
  | _ => none

/-- The call an invoke makes. -/
def Terminator.call? : Terminator → Option Call
  | .invoke _ c _ _ => some c
  | _ => none

/-- The calls of a block: its instructions', then an invoke's. -/
def Block.calls (b : Block) : List Call := b.insts.filterMap (·.kind.call?) ++ b.term.call?.toList

namespace Function

/-- The written name of a parameter: a definition shows every parameter's local, a declaration
only the named ones. -/
def paramName (f : Function) (p : Param) : Option Ast.LocalName :=
  if !f.isDeclaration || (f.locals.ident p.slot).isNamed then some (f.locals.name p.slot) else none

/-- The written header of a function. -/
def headerAst (f : Function) : Ast.Header where
  name := f.name
  linkage := f.linkage
  preemption := f.preemption
  visibility := f.visibility
  dll := f.dll
  callingConv := f.callingConv
  returnAttrs := f.returnAttrs
  ret := f.sig.ret
  params := f.params.map fun p => ⟨p.ty, p.attrs, f.paramName p⟩
  variadic := f.sig.variadic
  unnamedAddr := f.unnamedAddr
  funcAttrs := f.funcAttrs
  sectionName := f.sectionName
  comdat := f.comdat.map (ComdatDef.clause f.name)
  gc := f.gc
  prefixData := f.prefixData.map Const.toTypedAst
  prologue := f.prologue.map Const.toTypedAst
  personality := f.personality.map Const.toTypedAst

/-- The written body of a definition. -/
def bodyAst (f : Function) : Ast.Body :=
  ⟨f.blocks.map (·.toAst f.locals), f.useLists.map (·.toAst f.locals)⟩

/-- The written form of a function. -/
def toAst (f : Function) : Ast.Function :=
  ⟨f.headerAst, f.metadata, if f.isDeclaration then none else some f.bodyAst⟩

/-- What checking the written form of a function gives: a declaration forgets the numbers of its
unnamed parameters, which its text does not show. -/
def canonical (f : Function) : Function :=
  if f.isDeclaration then { f with locals := f.locals.map LocalIdent.forgetNumber } else f

/-- The calls of a function body, block by block. -/
def calls (f : Function) : List Call := f.blocks.flatMap Block.calls

/-- The constants a function's text shows: its prefix, prologue and personality and its
constant operands. -/
def constants (f : Function) : List Const :=
  f.prefixData.toList ++ f.prologue.toList ++ f.personality.toList ++ f.values.filterMap Value.const?

end Function

namespace Global

/-- The linkage written for a global: `external` when it has neither linkage nor initializer. -/
def writtenLinkage (g : Global) : Option Linkage :=
  match g.linkage, g.init with
  | some l, _ => some l
  | none, none => some .external
  | none, some _ => none

/-- The written form of a global. -/
def toAst (g : Global) : Ast.Global where
  name := g.name
  linkage := g.writtenLinkage
  preemption := g.preemption
  visibility := g.visibility
  dll := g.dll
  unnamedAddr := g.unnamedAddr
  isConstant := g.isConstant
  contentTy := g.contentTy
  init := g.init.map Const.toAst
  sectionName := g.sectionName
  comdat := g.comdat.map (ComdatDef.clause g.name)
  align := g.align

/-- What checking the written form of a global gives: its written linkage. -/
def canonical (g : Global) : Global := { g with linkage := g.writtenLinkage }

end Global

namespace Module

/-- The written form of a module. -/
def toAst (m : Module) : Ast.Module where
  sourceFilename := m.sourceFilename
  dataLayout := m.dataLayout
  targetTriple := m.targetTriple
  typeDefs := m.types.defs.map fun entry => ⟨entry.1, entry.2⟩
  comdats := m.comdats
  globals := m.globals.map Global.toAst
  funcs := m.funcs.map Function.toAst
  attrGroups := m.attrGroups

/-- What checking the written form of a module gives. -/
def canonical (m : Module) : Module :=
  { m with globals := m.globals.map Global.canonical, funcs := m.funcs.map Function.canonical }

end Module

/-! ## The canonical module prints as the module -/

theorem Global.render_canonical (g : Global) : g.canonical.render = g.render := by
  rcases g with ⟨name, ty, isConstant, init, linkage⟩
  cases linkage <;> cases init <;> rfl

theorem LocalIdent.isNamed_forgetNumber (i : LocalIdent) : i.forgetNumber.isNamed = i.isNamed := by
  cases i <;> rfl

theorem LocalIdent.forgetNumber_of_isNamed {i : LocalIdent} (h : i.isNamed = true) :
    i.forgetNumber = i := by
  cases i with
  | named name => rfl
  | anon id => cases h

theorem LocalTable.ident_map_forgetNumber (t : LocalTable) (slot : Nat) :
    LocalTable.ident (t.map LocalIdent.forgetNumber) slot = (t.ident slot).forgetNumber := by
  simp only [LocalTable.ident, Array.getElem?_map]
  cases t[slot]? <;> rfl

/-- A declaration shows a parameter's local only when it is named, so forgetting the numbers of
the others changes nothing in its header. -/
theorem Function.renderParam_forgetNumbers (f : Function) (p : Param) :
    { f with locals := f.locals.map LocalIdent.forgetNumber }.renderParam
        (LocalTable.ident (f.locals.map LocalIdent.forgetNumber) p.slot).isNamed p =
      f.renderParam (f.locals.ident p.slot).isNamed p := by
  simp only [renderParam, LocalTable.ident_map_forgetNumber, LocalIdent.isNamed_forgetNumber]
  cases hn : (f.locals.ident p.slot).isNamed
  · rfl
  · simp only [if_true, LocalIdent.forgetNumber_of_isNamed hn]

theorem Function.renderHeader_forgetNumbers (f : Function) (hdecl : f.isDeclaration = true) :
    { f with locals := f.locals.map LocalIdent.forgetNumber }.renderHeader = f.renderHeader := by
  have hdecl' : f.blocks.isEmpty = true := hdecl
  -- the equation lemma of `renderHeader` is costly to build; its body is unfolded instead
  delta renderHeader
  simp only [isDeclaration, hdecl', Bool.not_true, Bool.false_or, renderParam_forgetNumbers]

theorem Function.print_canonical (f : Function) : f.canonical.print = f.print := by
  unfold canonical
  split
  · rename_i hdecl
    have hdecl' : f.blocks.isEmpty = true := hdecl
    unfold print
    simp only [isDeclaration, hdecl', if_true, renderHeader_forgetNumbers f hdecl]
  · rfl

theorem Module.print_canonical (m : Module) : m.canonical.print = m.print := by
  have hfuncs : m.canonical.funcs.mapM Function.print = m.funcs.mapM Function.print := by
    simp only [canonical, List.mapM_map]
    congr 1
    funext f
    exact Function.print_canonical f
  have hglobals : m.canonical.globals.map Global.render = m.globals.map Global.render := by
    simp only [canonical, List.map_map]
    congr 1
    funext g
    exact Global.render_canonical g
  simp only [print, hfuncs, hglobals]
  rfl

end LlvmAsm
