import LlvmAsm.Ir.Function

/-!
# Modules

A checked module: header strings, named types, comdats, globals, functions and attribute groups,
each kind in the order written. Its canonical text (`Module.print`) is the non-empty sections
(header lines, type definitions, comdats, globals, functions, attribute groups) separated by blank
lines, functions also separated from each other by a blank line, and a final line feed.
-/

namespace LlvmAsm

/-- A global variable. -/
structure Global where
  name : String
  contentTy : Ty
  isConstant : Bool := false
  init : Option Const := .none
  linkage : Option Linkage := .none
  preemption : Option Preemption := .none
  visibility : Option Visibility := .none
  dll : Option DllStorage := .none
  unnamedAddr : Option UnnamedAddr := .none
  sectionName : Option String := .none
  comdat : Option ComdatDef := .none
  align : Option Nat := .none
  deriving Repr, Inhabited

/-- The text of a global. A global with neither linkage nor initializer is shown `external`. -/
def Global.render (g : Global) : String :=
  let opt {α : Type} (x : Option α) (text : α → String) : String := optionalText x text
  Text.globalName g.name ++ " =" ++
    (match g.linkage, g.init with
      | some l, _ => " " ++ Keyword.keyword l
      | none, none => " external"
      | none, some _ => "") ++
    opt g.preemption (" " ++ Keyword.keyword ·) ++ opt g.visibility (" " ++ Keyword.keyword ·) ++
    opt g.dll (" " ++ Keyword.keyword ·) ++ opt g.unnamedAddr (" " ++ Keyword.keyword ·) ++
    (if g.isConstant then " constant " else " global ") ++ g.contentTy.render ++
    opt g.init (" " ++ ·.render) ++
    opt g.sectionName (fun s => ", section " ++ Text.quote s.toUTF8.toList) ++
    opt g.comdat (fun c => if c.name = g.name then ", comdat" else ", " ++ c.reference) ++
    opt g.align (fun n => ", align " ++ toString n)

/-- A checked module. -/
structure Module where
  sourceFilename : Option String := .none
  dataLayout : Option String := .none
  targetTriple : Option String := .none
  types : TypeTable := {}
  comdats : List ComdatDef := []
  globals : List Global := []
  funcs : List Function := []
  attrGroups : List AttrGroupDef := []
  deriving Repr, Inhabited

namespace Module

/-- The function of a given name. -/
def func? (m : Module) (name : String) : Option Function := m.funcs.find? (·.name = name)

/-- Numbers the locals of every function, stopping at the first failure. -/
def assignIds (m : Module) : Except IrError Module := do
  let funcs ← m.funcs.mapM Function.assignIds
  pure { m with funcs := funcs }

/-- The lines of the header section. -/
def headerLines (m : Module) : List String :=
  (m.sourceFilename.map fun s => "source_filename = " ++ Text.quote s.toUTF8.toList).toList ++
  (m.dataLayout.map fun s => "target datalayout = " ++ Text.quote s.toUTF8.toList).toList ++
  (m.targetTriple.map fun s => "target triple = " ++ Text.quote s.toUTF8.toList).toList

/-- The definition line of a named type. -/
def typeLine (entry : String × Option Ty) : String :=
  Text.localName entry.1 ++ " = type " ++ match entry.2 with
    | some body => body.render
    | none => "opaque"

/-- The canonical text of a module. -/
def print (m : Module) : Except IrError String := do
  let funcs ← m.funcs.mapM Function.print
  let part (lines : List String) : List String := if lines.isEmpty then [] else ["\n".intercalate lines]
  let sections :=
    part m.headerLines ++ part (m.types.defs.map typeLine) ++
    part (m.comdats.map ComdatDef.definition) ++ part (m.globals.map Global.render) ++
    (if funcs.isEmpty then [] else ["\n\n".intercalate funcs]) ++
    part (m.attrGroups.map AttrGroupDef.render)
  pure ("\n\n".intercalate sections ++ "\n")

end Module

end LlvmAsm
