import LlvmAsm.Lowering.Scope

/-!
# Resolving block addresses

A block address is checked before the body of the function it points into exists, so it is
queued with the block identity as written. Once every function is numbered, the queue is
drained: each entry, in order, must name a function of the module and one of its blocks, the
block being found by name or by its final number. The queue is emptied whether or not every
entry resolves.
-/

namespace LlvmAsm

/-- Checks that a queued block address names a function of the module and one of its blocks. -/
def BlockRef.resolve (m : Module) (r : BlockRef) : Except IrError Unit :=
  match m.func? r.func with
  | none => .error (.unresolvedSymbol .function (Text.globalName r.func))
  | some f =>
    if (f.findBlock? r.block).isSome then .ok ()
    else .error (.danglingBlock f.name r.block.render)

/-- Resolves every queued entry in order, stopping at the first that fails, and empties the
queue; on success, the number of entries taken. -/
def FixupQueue.drain (q : FixupQueue) (m : Module) : Except IrError Nat × FixupQueue :=
  ((q.pending.forM (BlockRef.resolve m)).map fun _ => q.pending.length, {})

/-! ## Resolution

Draining also resolves each entry: the constant it stands for then points to the block found.
An entry is resolved once: one that is resolved already is not looked up again. Every entry of
the queue is an address of its own, as lowering queues a new one for each block address it checks.
-/

/-- A queued block address: what it names, and the label slot of its block once resolved. -/
structure BlockAddress where
  ref : BlockRef
  block : Option Nat := none
  deriving Repr, DecidableEq

namespace BlockAddress

/-- Whether the address points to its block. -/
def isResolved (a : BlockAddress) : Bool := a.block.isSome

/-- Resolves an address against the numbered module: the block of its function with the
identity written; an address that is resolved already is left as it is. -/
def resolve (m : Module) (a : BlockAddress) : Except IrError BlockAddress :=
  if a.isResolved then .ok a
  else
    match m.func? a.ref.func with
    | none => .error (.unresolvedSymbol .function (Text.globalName a.ref.func))
    | some f =>
      match f.findBlock? a.ref.block with
      | some b => .ok { a with block := some b.label }
      | none => .error (.danglingBlock f.name a.ref.block.render)

/-- Resolves addresses in order, stopping at the first that fails: the outcome, and every
address as it stands afterwards. -/
def resolveAll (m : Module) : List BlockAddress → Except IrError Unit × List BlockAddress
  | [] => (.ok (), [])
  | a :: rest =>
    match a.resolve m with
    | .ok a' =>
      let r := resolveAll m rest
      (r.1, a' :: r.2)
    | .error e => (.error e, a :: rest)

end BlockAddress

/-- Block addresses waiting for their blocks, each with its resolution. -/
structure AddressQueue where
  pending : List BlockAddress := []
  deriving Repr

namespace AddressQueue

/-- The queue lowering leaves: its block addresses, none of them resolved yet. -/
def ofFixups (q : FixupQueue) : AddressQueue := ⟨q.pending.map (⟨·, none⟩)⟩

/-- Takes every entry out of the queue, then resolves them in order, stopping at the first that
fails. Returns the outcome (on success, the number of entries taken), the entries as they stand
afterwards, and the queue, now empty. -/
def drain (q : AddressQueue) (m : Module) : (Except IrError Nat × List BlockAddress) × AddressQueue :=
  let r := BlockAddress.resolveAll m q.pending
  ((r.1.map fun _ => q.pending.length, r.2), {})

end AddressQueue

end LlvmAsm
