import LlvmAsm.Ast.Grammar.Module
import LlvmAsm.Lowering.Module

/-!
# From assembly text to canonical text

`formatModule` reads a module, checks it and prints its canonical text; `checkModule` stops after
checking and counts what the module holds. Each reports the first failure of the stage that
fails: reading, then checking, then numbering on the way to the text.
-/

namespace LlvmAsm

/-- The canonical text of a module written as `text`. -/
def formatModule (text : String) : Except IrError String := do
  let tree ← Ast.parseModule text
  let m ← lowerModule tree
  m.print

/-- What a checked module holds. -/
structure Summary where
  funcs : Nat
  globals : Nat
  types : Nat
  comdats : Nat
  attrGroups : Nat
  /-- Functions with a body. -/
  definitions : Nat
  deriving Repr, DecidableEq

/-- The counts of a checked module. -/
def Module.summary (m : Module) : Summary :=
  { funcs := m.funcs.length, globals := m.globals.length, types := m.types.defs.length,
    comdats := m.comdats.length, attrGroups := m.attrGroups.length,
    definitions := (m.funcs.filter fun f => !f.isDeclaration).length }

/-- Reads and checks a module written as `text`, without printing it. -/
def checkModule (text : String) : Except IrError Summary := do
  let tree ← Ast.parseModule text
  let m ← lowerModule tree
  pure m.summary

end LlvmAsm
