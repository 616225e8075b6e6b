import LlvmAsm.Lowering.Function
import LlvmAsm.Lowering.Fixup

/-!
# Checking a module

`lowerModule` checks a parsed module in a fixed order, stopping at the first failure:

1. the named types (`TypeTable.define`);
2. the comdats, each name once;
3. the symbols: each global with the address type of its content, then each function with the
   address type of its signature, each name once;
4. the globals' initializers and comdats;
5. the functions, each failure reported inside the function's name;
6. the numbering of every function definition;
7. the block addresses queued on the way.

The symbols are all known before any constant is checked, so a constant may name a global or a
function defined further down.
-/

namespace LlvmAsm

namespace Scope

/-- A global variable: its content type, its initializer checked at that type, and its comdat. -/
def lowerGlobal (s : Scope) (g : Ast.Global) : LowerM Global := do
  let contentTy ← LowerM.ofExcept (s.lowerType g.contentTy)
  let init ← g.init.mapM (s.lowerConst contentTy)
  let comdat ← g.comdat.mapM fun c => LowerM.ofExcept (s.lowerComdat g.name c)
  return { name := g.name, contentTy, isConstant := g.isConstant, init, linkage := g.linkage,
           preemption := g.preemption, visibility := g.visibility, dll := g.dll,
           unnamedAddr := g.unnamedAddr, sectionName := g.sectionName, comdat, align := g.align }

/-- Checks the globals' initializers, then the functions. -/
def lowerItems (s : Scope) (m : Ast.Module) : LowerM (List Global × List Function) := do
  let globals ← m.globals.mapM s.lowerGlobal
  let funcs ← m.funcs.mapM s.lowerFunction
  pure (globals, funcs)

/-- Adds the symbol of each global, at the address type of its content. -/
def declareGlobals (s : Scope) : List Ast.Global → Except IrError Scope
  | [] => .ok s
  | g :: gs => do
    let ty ← s.lowerType g.contentTy
    let s ← s.declare g.name ⟨.global, .ptr ty⟩
    s.declareGlobals gs

/-- Adds the symbol of each function, at the address type of its signature. -/
def declareFunctions (s : Scope) : List Ast.Function → Except IrError Scope
  | [] => .ok s
  | f :: fs => do
    let sig ← s.lowerSignature f.header
    let s ← s.declare f.header.name ⟨.function, .ptr sig.toTy⟩
    s.declareFunctions fs

end Scope

/-- The scope of a module: its named types, comdats and symbols. -/
def Scope.ofModule (m : Ast.Module) : Except IrError Scope := do
  let types ← TypeTable.define m.typeDefs
  let s ← ({ types } : Scope).defineComdats m.comdats
  let s ← s.declareGlobals m.globals
  s.declareFunctions m.funcs

/-- Checks a parsed module and builds its numbered form. -/
def lowerModule (m : Ast.Module) : Except IrError Module := do
  let s ← Scope.ofModule m
  let (result, queue) := (s.lowerItems m).run.run {}
  let (globals, funcs) ← result
  let module ← ({ sourceFilename := m.sourceFilename, dataLayout := m.dataLayout,
                  targetTriple := m.targetTriple, types := s.types, comdats := m.comdats,
                  globals, funcs } : Module).assignIds
  let _ ← (queue.drain module).1
  pure { module with attrGroups := m.attrGroups }

end LlvmAsm
