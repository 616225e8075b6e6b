import LlvmAsm.Proofs.Lowering.Steps

/-!
# `Proofs.Lowering.FailedConstants` — what a failed check of a constant leaves queued

Checking a constant queues each block address it checks as it goes, and nothing takes an address
back off the queue when a later part of the constant fails. So a check, whatever its outcome, keeps
the entries the queue held, in place, and appends block addresses written in the constant, in text
order: all of them when it succeeds, the ones it reached before failing when it fails
(`Scope.lowerConst_appends_written_addresses`). A struct whose first field is a block address and whose
second field is refused leaves that address queued (`failedStruct_keeps_block_address`).

The proof is one induction over the checks, with `LowerM.QueuesFirst` (a run appends the first
entries of a given list, and all of it when it succeeds) carried through every step.
-/

namespace LlvmAsm

/-! ## The block addresses written in a constant -/

namespace Ast

mutual

/-- The block addresses written in a constant, in text order, with the identities they name. -/
def Const.blockRefs : Const → List BlockRef
  | .struct _ fields => TypedConst.blockRefsOf fields
  | .array elems => TypedConst.blockRefsOf elems
  | .vector elems => TypedConst.blockRefsOf elems
  | .blockAddress func block => [⟨func, LocalIdent.ofName block⟩]
  | .cast _ value _ => value.blockRefs
  | .binary _ lhs rhs => lhs.blockRefs ++ rhs.blockRefs
  | .gep _ _ base indices => base.blockRefs ++ TypedConst.blockRefsOf indices
  | _ => []

/-- The block addresses written in a constant after its type. -/
def TypedConst.blockRefs : TypedConst → List BlockRef
  | .mk _ value => value.blockRefs

/-- The block addresses written in constants, in order. -/
def TypedConst.blockRefsOf : List TypedConst → List BlockRef
  | [] => []
  | c :: cs => c.blockRefs ++ TypedConst.blockRefsOf cs

end

end Ast

/-! ## Runs that queue a prefix of a list -/

namespace LowerM

variable {α β : Type} {x : LowerM α} {f : α → LowerM β} {refs refs' : List BlockRef}

/-- **A run that queues the first entries of `refs`**: it only appends to the queue, what it
appends is a prefix of `refs`, and it is all of `refs` when the run succeeds. -/
structure QueuesFirst (x : LowerM α) (refs : List BlockRef) : Prop where
  appends : x.Appends
  leading : x.queued <+: refs
  complete : ∀ a, x.result = .ok a → x.queued = refs

namespace QueuesFirst

theorem pure (a : α) : QueuesFirst (Pure.pure a : LowerM α) [] :=
  ⟨.pure a, List.nil_prefix, fun _ _ => rfl⟩

/-- A failure queues nothing, a prefix of any list. -/
theorem throw (e : IrError) (refs : List BlockRef) : QueuesFirst (throw e : LowerM α) refs :=
  ⟨.throw e, List.nil_prefix, fun _ h => nomatch h⟩

theorem push (r : BlockRef) :
    QueuesFirst (modify fun q : FixupQueue => q.push r : LowerM Unit) [r] :=
  ⟨.push r, List.prefix_refl _, fun _ _ => rfl⟩

theorem ofExcept (x : Except IrError α) : QueuesFirst (LowerM.ofExcept x) [] := by
  refine ⟨.ofExcept x, ?_, fun _ _ => ?_⟩ <;> simp [queued]

theorem of_eq (h : QueuesFirst x refs) (href : refs = refs') : QueuesFirst x refs' := href ▸ h

/-- A sequence queues a prefix of what its first step may queue followed by what the rest may: the
rest runs only when the first step succeeded, having queued all it may. -/
theorem bind (hx : QueuesFirst x refs) (hf : ∀ a, QueuesFirst (f a) refs') :
    QueuesFirst (x >>= f) (refs ++ refs') := by
  have happ : (x >>= f).Appends := hx.appends.bind fun a => (hf a).appends
  have hresult := hx.appends.bind_result fun a => (hf a).appends
  refine ⟨happ, ?_, fun b hb => ?_⟩
  · cases hxr : x.result with
    | error e =>
      -- the rest never runs: the sequence queued what the first step did
      have hq : (x >>= f).queued = x.queued := by
        show ((x >>= f).run.run {}).2.pending = _
        rw [hx.appends.run_bind f {}, hxr]
        rfl
      rw [hq]
      exact hx.leading.trans (List.prefix_append _ _)
    | ok a =>
      rw [hx.appends.bind_queued (fun a => (hf a).appends) hxr, hx.complete a hxr]
      exact (List.prefix_append_right_inj refs).mpr (hf a).leading
  · rw [hresult] at hb
    obtain ⟨a, ha, hb⟩ := Except.bind_eq_ok_iff.mp hb
    rw [hx.appends.bind_queued (fun a => (hf a).appends) ha, hx.complete a ha, (hf a).complete b hb]

/-- A failure stops a sequence, which then queues nothing. -/
theorem throw_bind (e : IrError) (f : α → LowerM β) (refs : List BlockRef) :
    QueuesFirst (MonadExcept.throw e >>= f) refs := by
  rw [LowerM.throw_bind]
  exact throw e refs

/-- A step that queues nothing before a run leaves what the run queues. -/
theorem bind_left (hx : QueuesFirst x []) (hf : ∀ a, QueuesFirst (f a) refs) :
    QueuesFirst (x >>= f) refs :=
  bind hx hf

/-- A run followed by steps that queue nothing. -/
theorem bind_right (hx : QueuesFirst x refs) (hf : ∀ a, QueuesFirst (f a) []) :
    QueuesFirst (x >>= f) refs :=
  (bind hx hf).of_eq (List.append_nil refs)

end QueuesFirst

end LowerM

/-! ## Checking constants -/

namespace Scope

open LowerM

variable (s : Scope)

theorem mismatchAt_queuesFirst {α : Type} (context expected found : String) (refs : List BlockRef) :
    QueuesFirst (mismatchAt context expected found : LowerM α) refs :=
  .throw _ refs

theorem expressionAt_queuesFirst (expected : Ty) (e : Const) :
    QueuesFirst (s.expressionAt expected e) [] := by
  unfold expressionAt
  split
  · exact .pure _
  · exact mismatchAt_queuesFirst _ _ _ _

mutual

/-- **Checking a constant queues a prefix of its block addresses**, all of them when it succeeds. -/
theorem lowerConst_queuesFirst (expected : Ty) :
    ∀ c : Ast.Const, QueuesFirst (s.lowerConst expected c) c.blockRefs
  | .bool _ => by
    unfold lowerConst
    split
    · exact .pure _
    · exact mismatchAt_queuesFirst _ _ _ _
  | .int _ => by
    unfold lowerConst
    split
    · exact .bind_left (.ofExcept _) fun _ => .pure _
    · exact mismatchAt_queuesFirst _ _ _ _
  | .float _ => by
    unfold lowerConst
    split
    · exact .bind_left (.ofExcept _) fun _ => .pure _
    · exact mismatchAt_queuesFirst _ _ _ _
  | .null => by
    unfold lowerConst
    split
    · exact .pure _
    · exact mismatchAt_queuesFirst _ _ _ _
  | .none => by
    unfold lowerConst
    split
    · exact .pure _
    · exact mismatchAt_queuesFirst _ _ _ _
  | .struct _ fields => by
    unfold lowerConst
    split
    · split
      · rename_i hlen
        -- the fields are checked only when there are as many as the struct has
        have hlen : _ = fields.length := (Bool.and_eq_true _ _ ▸ hlen).2 |> of_decide_eq_true
        exact .bind_right (lowerFields_queuesFirst _ fields hlen) fun _ => .pure _
      · exact mismatchAt_queuesFirst _ _ _ _
    · exact mismatchAt_queuesFirst _ _ _ _
  | .array elems => by
    unfold lowerConst
    split
    · split
      · exact mismatchAt_queuesFirst _ _ _ _
      · exact .bind_right (lowerElems_queuesFirst _ _ elems) fun _ => .pure _
    · exact mismatchAt_queuesFirst _ _ _ _
  | .vector elems => by
    unfold lowerConst
    split
    · split
      · exact mismatchAt_queuesFirst _ _ _ _
      · exact .bind_right (lowerElems_queuesFirst _ _ elems) fun _ => .pure _
    · exact mismatchAt_queuesFirst _ _ _ _
  | .chars _ => by
    unfold lowerConst
    split
    · exact .throw _ _
    · dsimp only
      split
      · exact mismatchAt_queuesFirst _ _ _ _
      · exact .pure _
  | .zeroInit => .pure _
  | .undef => .pure _
  | .blockAddress _ _ => by
    unfold lowerConst
    dsimp only
    split
    · split
      · exact .bind_left (mismatchAt_queuesFirst _ _ _ _) fun _ =>
          .bind_right (.push _) fun _ => .pure _
      · exact .bind_right (.push _) fun _ => .pure _
    · exact .throw_bind _ _ _
  | .global _ => by
    unfold lowerConst
    split
    · exact .throw _ _
    · dsimp only
      split
      · exact .bind_left (mismatchAt_queuesFirst _ _ _ _) fun _ => .pure _
      · exact .pure _
  | .cast _ value _ => by
    unfold lowerConst
    refine .bind_right (lowerTypedConst_queuesFirst value) fun _ =>
      .bind_left (.ofExcept _) fun _ => ?_
    dsimp only
    split
    · exact .bind_left (mismatchAt_queuesFirst _ _ _ _) fun _ => expressionAt_queuesFirst s _ _
    · exact expressionAt_queuesFirst s _ _
  | .binary _ lhs (.mk _ rhsValue) => by
    unfold lowerConst
    refine .bind (lowerTypedConst_queuesFirst lhs) fun _ => ?_
    dsimp only
    split
    · refine .bind_left (.ofExcept _) fun _ => ?_
      split
      · exact .throw_bind _ _ _
      · exact .bind_right (lowerConst_queuesFirst _ rhsValue) fun _ => expressionAt_queuesFirst s _ _
    · exact .throw_bind _ _ _
  | .gep _ _ base indices => by
    unfold lowerConst
    exact .bind_left (.ofExcept _) fun _ =>
      .bind (lowerTypedConst_queuesFirst base) fun _ =>
        .bind_right (lowerTypedConsts_queuesFirst indices) fun _ =>
          .bind_left (.ofExcept _) fun _ => expressionAt_queuesFirst s _ _

theorem lowerTypedConst_queuesFirst :
    ∀ c : Ast.TypedConst, QueuesFirst (s.lowerTypedConst c) c.blockRefs
  | .mk _ value => .bind_left (.ofExcept _) fun t => lowerConst_queuesFirst t value

theorem lowerTypedConsts_queuesFirst :
    ∀ cs : List Ast.TypedConst, QueuesFirst (s.lowerTypedConsts cs) (Ast.TypedConst.blockRefsOf cs)
  | [] => .pure _
  | c :: cs =>
    .bind (lowerTypedConst_queuesFirst c) fun _ =>
      .bind_right (lowerTypedConsts_queuesFirst cs) fun _ => .pure _

theorem lowerElems_queuesFirst (context : String) (elem : Ty) :
    ∀ cs : List Ast.TypedConst,
      QueuesFirst (s.lowerElems context elem cs) (Ast.TypedConst.blockRefsOf cs)
  | [] => .pure _
  | .mk _ value :: rest => by
    unfold lowerElems
    refine .bind_left (.ofExcept _) fun _ => ?_
    dsimp only
    split
    · exact .throw_bind _ _ _
    · exact .bind (lowerConst_queuesFirst elem value) fun _ =>
        .bind_right (lowerElems_queuesFirst context elem rest) fun _ => .pure _

/-- The fields of a struct, when there are as many as it has. -/
theorem lowerFields_queuesFirst :
    ∀ (tys : List Ty) (cs : List Ast.TypedConst), tys.length = cs.length →
      QueuesFirst (s.lowerFields tys cs) (Ast.TypedConst.blockRefsOf cs)
  | fieldTy :: tys, .mk _ value :: rest, hlen => by
    unfold lowerFields
    refine .bind_left (.ofExcept _) fun _ => ?_
    dsimp only
    split
    · exact .throw_bind _ _ _
    · exact .bind (lowerConst_queuesFirst fieldTy value) fun _ =>
        .bind_right (lowerFields_queuesFirst tys rest (Nat.succ.inj hlen)) fun _ => .pure _
  | [], [], _ => by unfold lowerFields; exact .pure _
  | [], _ :: _, hlen => nomatch hlen
  | _ :: _, [], hlen => nomatch hlen

end

/-- **What checking a constant leaves queued.** Whatever the outcome, the entries the queue held
stay, in place, and the check appends block addresses written in the constant, in text order: all
of them when it succeeds, a prefix of them when it fails. -/
theorem lowerConst_appends_written_addresses (expected : Ty) (c : Ast.Const) (q : FixupQueue) :
    ∃ refs, ((s.lowerConst expected c).run.run q).2.pending = q.pending ++ refs ∧
      refs <+: c.blockRefs ∧
      ∀ k, ((s.lowerConst expected c).run.run q).1 = .ok k → refs = c.blockRefs := by
  have h := lowerConst_queuesFirst s expected c
  refine ⟨(s.lowerConst expected c).queued, by rw [h.appends q], h.leading, fun k hk => ?_⟩
  rw [h.appends q] at hk
  exact h.complete k hk

end Scope

/-- A struct whose first field is a block address and whose second field is written with the wrong
type fails, and leaves the block address queued. -/
theorem failedStruct_keeps_block_address :
    (({ symbols := [("f", ⟨.function, .ptr (.func .void [] false)⟩)] } : Scope).lowerConst
      (.struct false [.ptr .i8, .int 32])
      (.struct false [.mk (.ptr .i8) (.blockAddress "f" (.name "b")), .mk (.int 64) (.int "1")])).run.run
      {} = (.error (.mismatch "struct field" "i32" "i64"), ⟨[⟨"f", .named "b"⟩]⟩) := by
  rfl

end LlvmAsm
