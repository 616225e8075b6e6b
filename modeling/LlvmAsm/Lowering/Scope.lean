import LlvmAsm.Ir.Module
import LlvmAsm.Ast.Tree

/-!
# What lowering knows about a module

Lowering checks the written module against what the module defines: its named types (a
`TypeTable`), its comdats, and its symbols (each global and function, with the type of its
address). This module builds those tables, with the checks that come with them:

* a type expression is valid when its integer widths lie in `1..2^23` and its names are defined
  (`Scope.lowerType`, which returns the type itself);
* named types are defined all at once, every name first and then each body in order, and a body
  may not be a chain of names leading back to its own name (`TypeTable.define`);
* a comdat, a global or a function name may be defined once.

Block addresses found while lowering wait in a `FixupQueue` until every function is numbered;
lowering runs in `LowerM`, where a failure keeps what was queued before it.
-/

namespace LlvmAsm

/-- A block address waiting for its block: the function and the block identity written. -/
structure BlockRef where
  func : String
  block : LocalIdent
  deriving Repr, DecidableEq

/-- Block addresses in the order lowering met them. -/
structure FixupQueue where
  pending : List BlockRef := []
  deriving Repr

/-- Adds a block address at the end of the queue. -/
def FixupQueue.push (q : FixupQueue) (r : BlockRef) : FixupQueue := ⟨q.pending ++ [r]⟩

/-- Lowering: fails with an `IrError`, and queues block addresses. -/
abbrev LowerM := ExceptT IrError (StateM FixupQueue)

/-- Lifts a result that cannot queue anything. -/
def LowerM.ofExcept {α : Type} (x : Except IrError α) : LowerM α :=
  match x with
  | .ok a => pure a
  | .error e => throw e

/-- What a symbol names. -/
inductive SymbolRole where
  | global
  | function
  deriving Repr, DecidableEq

/-- A symbol: what it names and the type of its address. -/
structure Symbol where
  role : SymbolRole
  ty : Ty
  deriving Repr

/-- The definitions lowering checks a module against. -/
structure Scope where
  types : TypeTable := {}
  symbols : List (String × Symbol) := []
  comdats : List (String × ComdatDef) := []
  deriving Repr

namespace Scope

mutual

/-- Checks a type expression: integer widths in `1..2^23`, named types defined. -/
def lowerType (s : Scope) : Ty → Except IrError Ty
  | .int bits =>
    if bits = 0 || maxIntBits < bits then
      .error (.malformedLiteral .integerType ("i" ++ toString bits)
        ("width must be between 1 and " ++ toString maxIntBits))
    else .ok (.int bits)
  | .pointer elem space => do return .pointer (← s.lowerType elem) space
  | .array len elem => do return .array len (← s.lowerType elem)
  | .vector len elem => do return .vector len (← s.lowerType elem)
  | .struct packed fields => do return .struct packed (← s.lowerTypes fields)
  | .func ret params variadic => do
    let r ← s.lowerType ret
    return .func r (← s.lowerTypes params) variadic
  | .named name =>
    if s.types.contains name then .ok (.named name) else .error (.unresolvedType name)
  | ty => .ok ty

/-- Checks type expressions in order. -/
def lowerTypes (s : Scope) : List Ty → Except IrError (List Ty)
  | [] => .ok []
  | t :: ts => do
    let t' ← s.lowerType t
    return t' :: (← s.lowerTypes ts)

end

/-- The symbol of a name. -/
def symbol? (s : Scope) (name : String) : Option Symbol := s.symbols.lookup name

/-- Adds a symbol; a name may be defined once. -/
def declare (s : Scope) (name : String) (sym : Symbol) : Except IrError Scope :=
  if (s.symbol? name).isSome then .error (.redefinition .global (Text.globalName name))
  else .ok { s with symbols := s.symbols ++ [(name, sym)] }

/-- The comdat of a name. -/
def comdat (s : Scope) (name : String) : Except IrError ComdatDef :=
  match s.comdats.lookup name with
  | some c => .ok c
  | none => .error (.unresolvedSymbol .comdat (Text.comdatName name))

/-- The comdat a clause names; the plain clause names the owner's own comdat. -/
def lowerComdat (s : Scope) (owner : String) : Ast.ComdatRef → Except IrError ComdatDef
  | .implicit => s.comdat owner
  | .named name => s.comdat name

/-- Adds the comdats of a module; a name may be defined once. -/
def defineComdats (s : Scope) : List ComdatDef → Except IrError Scope
  | [] => .ok s
  | c :: cs =>
    if (s.comdats.lookup c.name).isSome then .error (.redefinition .comdat (Text.comdatName c.name))
    else { s with comdats := s.comdats ++ [(c.name, c)] }.defineComdats cs

/-- The signature a function header declares. -/
def lowerSignature (s : Scope) (h : Ast.Header) : Except IrError FuncSig := do
  let ret ← s.lowerType h.ret
  let params ← s.lowerTypes (h.params.map (·.ty))
  return ⟨ret, params, h.variadic⟩

end Scope

namespace TypeTable

/-- Sets the body of a defined name. -/
def setBody (t : TypeTable) (name : String) (body : Ty) : TypeTable :=
  ⟨t.defs.map fun (n, b) => if n = name then (n, some body) else (n, b)⟩

/-- Whether following the chain of names from `ty` meets `name` or a name twice; `seen` holds the
names met so far and `fuel` bounds the chain, which has at most one step per defined name. -/
def aliasCycle (t : TypeTable) (name : String) : Nat → List String → Ty → Bool
  | 0, _, _ => false
  | fuel + 1, seen, .named next =>
    if next = name || seen.contains next then true
    else match t.body? next with
      | some b => t.aliasCycle name fuel (next :: seen) b
      | none => false
  | _ + 1, _, _ => false

/-- Declares every name of the definitions, in order; a name may be defined once. -/
def declareAll : TypeTable → List Ast.TypeDef → Except IrError TypeTable
  | t, [] => .ok t
  | t, d :: ds =>
    if t.contains d.name then .error (.redefinition .type (Text.localName d.name))
    else declareAll ⟨t.defs ++ [(d.name, none)]⟩ ds

/-- Gives each definition with a body its checked body, in order, refusing a body whose chain of
names leads back to its own name. -/
def defineBodies : TypeTable → List Ast.TypeDef → Except IrError TypeTable
  | t, [] => .ok t
  | t, d :: ds =>
    match d.body with
    | none => defineBodies t ds
    | some body => do
      let body ← Scope.lowerType { types := t } body
      if t.aliasCycle d.name (t.defs.length + 1) [] body then
        throw (.mismatch ("definition of " ++ Text.localName d.name) "non-alias type"
          ("cyclic alias " ++ body.render))
      defineBodies (t.setBody d.name body) ds

/-- The table of a module's named type definitions. -/
def define (defs : List Ast.TypeDef) : Except IrError TypeTable := do
  let t ← declareAll {} defs
  defineBodies t defs

end TypeTable

end LlvmAsm
