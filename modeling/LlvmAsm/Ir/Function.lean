import LlvmAsm.Ir.Instruction

/-!
# Functions and the numbering of their locals

A function has a signature, parameters, blocks (none for a declaration), the qualifiers of its
header, and the table of identities of its locals.

Numbering (`Function.assignIds`) gives the anonymous locals of a definition the numbers `0, 1,
2, …` in visiting order: the parameters, then for each block its label, the numbered results of
its instructions and the numbered result of its terminator. A local that already has a number
keeps it only when it is that position's number (a `0` means "not yet numbered"); any other
number is reported with the number expected there. Numbering a numbered function changes
nothing, so printing numbers again on the way.
-/

namespace LlvmAsm

/-- The text of an optional part of a line, or nothing when the part is absent. -/
def optionalText {α : Type} (x : Option α) (text : α → String) : String :=
  match x with
  | some a => text a
  | none => ""

/-- A parameter: type, attributes and the slot of its identity. -/
structure Param where
  ty : Ty
  attrs : List Attribute
  slot : Nat
  deriving Repr, Inhabited

/-- A function. -/
structure Function where
  name : String
  sig : FuncSig
  params : List Param
  blocks : List Block := []
  locals : LocalTable := #[]
  linkage : Option Linkage := .none
  preemption : Option Preemption := .none
  visibility : Option Visibility := .none
  dll : Option DllStorage := .none
  callingConv : Option CallingConv := .none
  returnAttrs : List Attribute := []
  unnamedAddr : Option UnnamedAddr := .none
  funcAttrs : List Attribute := []
  sectionName : Option String := .none
  comdat : Option ComdatDef := .none
  gc : Option String := .none
  prefixData : Option Const := .none
  prologue : Option Const := .none
  personality : Option Const := .none
  useLists : List UseListOrder := []
  metadata : List MetadataAttachment := []
  deriving Repr, Inhabited

/-- The largest local number, the largest 32-bit number: a counter of local numbers at it cannot
move on. -/
def maxLocalId : Nat := Nat.pow 2 32 - 1

namespace Function

/-- Whether the function has no body. -/
def isDeclaration (f : Function) : Bool := f.blocks.isEmpty

/-- The slots numbering visits, in order. -/
def visitOrder (f : Function) : List Nat :=
  f.params.map (·.slot) ++ f.blocks.flatMap fun b =>
    b.label :: b.insts.filterMap (·.numberedSlot) ++ b.term.numberedSlot.toList

/-- Numbers the anonymous locals among `slots`, the next number being `next`. The counter is a
32-bit number, so numbering a local while it is at `maxLocalId` overflows it (`idsExhausted`). -/
def numberSlots (func : String) : List Nat → Nat → LocalTable → Except IrError LocalTable
  | [], _, t => .ok t
  | slot :: rest, next, t =>
    match t.ident slot with
    | .named _ => numberSlots func rest next t
    | .anon id =>
      if id ≠ 0 && id ≠ next then .error (.invalidLocalId func next id)
      else if next = maxLocalId then .error .idsExhausted
      else numberSlots func rest (next + 1) (t.setIfInBounds slot (.anon next))

/-- Numbers the anonymous locals of a definition; a declaration is left as it is. -/
def assignIds (f : Function) : Except IrError Function :=
  if f.isDeclaration then .ok f
  else do
    let locals ← numberSlots f.name f.visitOrder 0 f.locals
    pure { f with locals := locals }

/-- The block of a function with a given identity. -/
def findBlock? (f : Function) (ident : LocalIdent) : Option Block :=
  f.blocks.find? fun b => f.locals.ident b.label == ident

/-- The text of a parameter, with its identity when `withIdent`. -/
def renderParam (f : Function) (withIdent : Bool) (p : Param) : String :=
  p.ty.render ++ String.join (p.attrs.map (" " ++ ·.render)) ++
    (if withIdent then " " ++ (f.locals.ident p.slot).render else "")

/-- The header text after `declare`/`define` and the linkage. -/
def renderHeader (f : Function) : String :=
  let opt {α : Type} (x : Option α) (text : α → String) : String := optionalText x (" " ++ text ·)
  let params := ", ".intercalate (f.params.map fun p =>
    f.renderParam (!f.isDeclaration || (f.locals.ident p.slot).isNamed) p)
  let ellipsis := if f.sig.variadic then (if f.params.isEmpty then "..." else ", ...") else ""
  opt f.preemption Keyword.keyword ++ opt f.visibility Keyword.keyword ++ opt f.dll Keyword.keyword ++
    opt f.callingConv CallingConv.render ++ String.join (f.returnAttrs.map (" " ++ ·.render)) ++
    " " ++ f.sig.ret.render ++ " " ++ Text.globalName f.name ++ "(" ++ params ++ ellipsis ++ ")" ++
    opt f.unnamedAddr Keyword.keyword ++ String.join (f.funcAttrs.map (" " ++ ·.render)) ++
    opt f.sectionName (fun s => "section " ++ Text.quote s.toUTF8.toList) ++
    opt f.comdat (fun c => if c.name = f.name then "comdat" else c.reference) ++
    opt f.gc (fun s => "gc " ++ Text.quote s.toUTF8.toList) ++
    opt f.prefixData (fun c => "prefix " ++ c.renderTyped) ++
    opt f.prologue (fun c => "prologue " ++ c.renderTyped) ++
    opt f.personality (fun c => "personality " ++ c.renderTyped)

/-- The body text: the blocks separated by blank lines, then the use-list orders after one. -/
def renderBody (f : Function) : String :=
  "\x7b\n" ++ "\n".intercalate (f.blocks.map fun b => b.render f.locals ++ "\n") ++
    (if f.useLists.isEmpty then "" else "\n") ++
    String.join (f.useLists.map fun u => "\t" ++ u.render f.locals ++ "\n") ++ "\x7d"

/-- The text of a function; a definition is numbered first. -/
def print (f : Function) : Except IrError String :=
  let linkage := match f.linkage with
    | some l => " " ++ Keyword.keyword l
    | none => ""
  if f.isDeclaration then
    .ok ("declare" ++ String.join (f.metadata.map (" " ++ ·.render)) ++ linkage ++ f.renderHeader)
  else do
    let f ← f.assignIds
    pure ("define" ++ linkage ++ f.renderHeader ++ String.join (f.metadata.map (" " ++ ·.render)) ++
      " " ++ f.renderBody)

end Function

end LlvmAsm
