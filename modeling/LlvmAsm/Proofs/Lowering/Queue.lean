import LlvmAsm.Proofs.Lowering.Body

/-!
# `Proofs.Lowering.Queue` — every block address is queued

A block address is checked before the function it points into is numbered, so lowering queues it
(`FixupQueue`) and resolves the queue once the module is numbered. This module shows that the
queue misses nothing and holds nothing else: a lowering step that succeeds appends to the queue
exactly the block addresses of what it builds, in text order, and each names a function of the
scope (`Scope.Queues`). The block addresses of a checked item are read off the IR
(`Const.blockRefs`, `Function.blockRefs`, `Global.blockRefs`): those inside constants at any depth,
in global initializers, in a function's prefix, prologue and personality, and in the operands of its
instructions, terminators and use-list orders.

Main statement: `Scope.lowerItems_queues` — the items of a module queue the block addresses of its
checked globals, then of its checked functions.
-/

namespace LlvmAsm

/-! ## The block addresses of checked items -/

namespace Const

mutual

/-- The block addresses inside a constant, in text order. -/
def blockRefs : Const → List BlockRef
  | .struct _ _ elems => blockRefsOf elems
  | .array _ elems => blockRefsOf elems
  | .vector _ elems => blockRefsOf elems
  | .blockAddress func block => [⟨func, block⟩]
  | .cast _ value _ => value.blockRefs
  | .binary _ lhs rhs => lhs.blockRefs ++ rhs.blockRefs
  | .gep _ _ base indices _ => base.blockRefs ++ blockRefsOf indices
  | _ => []

/-- The block addresses inside constants, in order. -/
def blockRefsOf : List Const → List BlockRef
  | [] => []
  | c :: cs => c.blockRefs ++ blockRefsOf cs

end

@[simp] theorem blockRefsOf_eq (cs : List Const) : blockRefsOf cs = cs.flatMap blockRefs := by
  induction cs with
  | nil => rfl
  | cons c cs ih => rw [blockRefsOf, ih, List.flatMap_cons]

end Const

/-- The block addresses of an operand. -/
def Value.blockRefs : Value → List BlockRef
  | .reg _ _ => []
  | .const c => c.blockRefs

/-- The block addresses of a function's header: in its prefix, prologue and personality. -/
def Function.headerRefs (f : Function) : List BlockRef :=
  (f.prefixData.toList ++ f.prologue.toList ++ f.personality.toList).flatMap Const.blockRefs

/-- The block addresses of a function: those of its header, then those of the operands of its
body. -/
def Function.blockRefs (f : Function) : List BlockRef :=
  f.headerRefs ++ f.values.flatMap Value.blockRefs

/-- The block addresses of a global: in its initializer. -/
def Global.blockRefs (g : Global) : List BlockRef := g.init.toList.flatMap Const.blockRefs

/-! ## Runs that queue block addresses -/

/-- **A run queued `refs`**: the queue grew by exactly `refs`, each naming a function of the
scope. -/
structure Scope.Queues (s : Scope) (q q' : FixupQueue) (refs : List BlockRef) : Prop where
  pending : q'.pending = q.pending ++ refs
  funcs : ∀ r ∈ refs, ∃ ty, s.symbol? r.func = some ⟨.function, ty⟩

namespace Scope.Queues

variable {s : Scope} {q q₁ q₂ q₃ : FixupQueue} {a b : List BlockRef}

theorem refl (s : Scope) (q : FixupQueue) : s.Queues q q [] :=
  ⟨(List.append_nil _).symm, fun _ h => nomatch h⟩

theorem trans (h₁ : s.Queues q₁ q₂ a) (h₂ : s.Queues q₂ q₃ b) : s.Queues q₁ q₃ (a ++ b) := by
  refine ⟨by rw [h₂.pending, h₁.pending, List.append_assoc], fun r hr => ?_⟩
  rcases List.mem_append.mp hr with hr | hr
  · exact h₁.funcs r hr
  · exact h₂.funcs r hr

theorem of_eq (h : s.Queues q₁ q₂ a) (ha : a = b) : s.Queues q₁ q₂ b := ha ▸ h

/-- A run that leaves the queue as it was queued nothing. -/
theorem of_queue_eq (h : q₂ = q₁) : s.Queues q₁ q₂ [] := h ▸ refl s q₁

end Scope.Queues

/-! ## Constants -/

namespace Scope

variable {s : Scope}

mutual

/-- **A checked constant queues its own block addresses.** -/
theorem lowerConst_queues :
    ∀ {expected : Ty} {c : Ast.Const} {q q' : FixupQueue} {k : Const},
      (s.lowerConst expected c).run.run q = (.ok k, q') → s.Queues q q' k.blockRefs
  | _, .bool _, q, _, _, h => by
    unfold lowerConst at h
    split at h
    · cases h; exact Queues.refl s q
    · cases h
  | _, .int _, q, _, _, h => by
    unfold lowerConst at h
    split at h
    · obtain ⟨i, q₁, hi, hk⟩ := LowerM.bind_ok h
      obtain ⟨-, rfl⟩ := LowerM.ofExcept_ok hi
      cases hk
      exact Queues.refl s _
    · cases h
  | _, .float _, q, _, _, h => by
    unfold lowerConst at h
    split at h
    · obtain ⟨f, q₁, hf, hk⟩ := LowerM.bind_ok h
      obtain ⟨-, rfl⟩ := LowerM.ofExcept_ok hf
      cases hk
      exact Queues.refl s _
    · cases h
  | _, .null, q, _, _, h => by
    unfold lowerConst at h
    split at h
    · cases h; exact Queues.refl s q
    · cases h
  | _, .none, q, _, _, h => by
    unfold lowerConst at h
    split at h
    · cases h; exact Queues.refl s q
    · cases h
  | _, .struct _ fields, _, _, _, h => by
    unfold lowerConst at h
    split at h
    · split at h
      · obtain ⟨elems, q₁, helems, hk⟩ := LowerM.bind_ok h
        cases hk
        exact (lowerFields_queues helems).of_eq (by simp [Const.blockRefs])
      · cases h
    · cases h
  | _, .array elems, _, _, _, h => by
    unfold lowerConst at h
    split at h
    · split at h
      · cases h
      · obtain ⟨cs, q₁, hcs, hk⟩ := LowerM.bind_ok h
        cases hk
        exact (lowerElems_queues hcs).of_eq (by simp [Const.blockRefs])
    · cases h
  | _, .vector elems, _, _, _, h => by
    unfold lowerConst at h
    split at h
    · split at h
      · cases h
      · obtain ⟨cs, q₁, hcs, hk⟩ := LowerM.bind_ok h
        cases hk
        exact (lowerElems_queues hcs).of_eq (by simp [Const.blockRefs])
    · cases h
  | _, .chars _, q, _, _, h => by
    unfold lowerConst at h
    split at h
    · cases h
    · dsimp only at h
      split at h
      · cases h
      · cases h; exact Queues.refl s q
  | _, .zeroInit, q, _, _, h => by
    unfold lowerConst at h
    cases h; exact Queues.refl s q
  | _, .undef, q, _, _, h => by
    unfold lowerConst at h
    cases h; exact Queues.refl s q
  | _, .blockAddress func block, q, _, _, h => by
    unfold lowerConst at h
    dsimp only at h
    split at h
    · -- the block address names a function of the scope, and is queued as written
      rename_i ty hty
      obtain ⟨-, h₁⟩ := LowerM.guard_ok (mismatchAt_fails _ _ _) h
      obtain ⟨_, q₂, hmod, h₂⟩ := LowerM.bind_ok h₁
      rw [LowerM.run_modify] at hmod
      cases hmod
      cases h₂
      refine ⟨rfl, fun r hr => ?_⟩
      rw [List.mem_singleton.mp hr]
      exact ⟨ty, hty⟩
    · obtain ⟨_, q₁, hthrow, -⟩ := LowerM.bind_ok h
      cases hthrow
  | _, .global name, q, _, _, h => by
    unfold lowerConst at h
    split at h
    · cases h
    · dsimp only at h
      obtain ⟨-, h₁⟩ := LowerM.guard_ok (mismatchAt_fails _ _ _) h
      cases h₁
      exact Queues.refl s q
  | _, .cast _ value _, _, _, _, h => by
    unfold lowerConst at h
    obtain ⟨src, q₁, hsrc, h₁⟩ := LowerM.bind_ok h
    obtain ⟨dst, -, h₂⟩ := LowerM.ofExcept_bind_ok h₁
    dsimp only at h₂
    obtain ⟨-, h₃⟩ := LowerM.guard_ok (mismatchAt_fails _ _ _) h₂
    have hexp := expressionAt_ok h₃
    rw [hexp.2.1, hexp.1, Const.blockRefs]
    exact lowerTypedConst_queues hsrc
  | _, .binary _ lhs (.mk _ rhsValue), _, _, _, h => by
    unfold lowerConst at h
    obtain ⟨a, q₁, ha, h₁⟩ := LowerM.bind_ok h
    dsimp only at h₁
    split at h₁
    · -- an integer left operand: the right operand is checked at its written type
      obtain ⟨rhsTy, -, h₂⟩ := LowerM.ofExcept_bind_ok h₁
      obtain ⟨-, h₃⟩ := LowerM.guard_ok (mismatchAt_fails _ _ _) h₂
      obtain ⟨b, q₂, hb, h₄⟩ := LowerM.bind_ok h₃
      have hexp := expressionAt_ok h₄
      rw [hexp.2.1, hexp.1]
      exact (lowerTypedConst_queues ha).trans (lowerConst_queues hb)
    · exact absurd h₁ mismatchAt_bind_ne_ok
  | _, .gep _ _ base indices, _, _, _, h => by
    unfold lowerConst at h
    obtain ⟨elemTy, -, h₁⟩ := LowerM.ofExcept_bind_ok h
    obtain ⟨b, q₁, hb, h₂⟩ := LowerM.bind_ok h₁
    obtain ⟨idx, q₂, hidx, h₃⟩ := LowerM.bind_ok h₂
    obtain ⟨ty, -, h₄⟩ := LowerM.ofExcept_bind_ok h₃
    have hexp := expressionAt_ok h₄
    rw [hexp.2.1, hexp.1]
    exact ((lowerTypedConst_queues hb).trans (lowerTypedConsts_queues hidx)).of_eq
      (by simp [Const.blockRefs])

theorem lowerTypedConst_queues :
    ∀ {c : Ast.TypedConst} {q q' : FixupQueue} {k : Const},
      (s.lowerTypedConst c).run.run q = (.ok k, q') → s.Queues q q' k.blockRefs
  | .mk ty value, _, _, _, h => by
    unfold lowerTypedConst at h
    obtain ⟨t, -, h₁⟩ := LowerM.ofExcept_bind_ok h
    exact lowerConst_queues h₁

theorem lowerTypedConsts_queues :
    ∀ {cs : List Ast.TypedConst} {q q' : FixupQueue} {ks : List Const},
      (s.lowerTypedConsts cs).run.run q = (.ok ks, q') → s.Queues q q' (ks.flatMap Const.blockRefs)
  | [], q, _, _, h => by
    unfold lowerTypedConsts at h
    cases h; exact Queues.refl s q
  | c :: cs, _, _, _, h => by
    unfold lowerTypedConsts at h
    obtain ⟨k, q₁, hk, h₁⟩ := LowerM.bind_ok h
    obtain ⟨ks, q₂, hks, h₂⟩ := LowerM.bind_ok h₁
    cases h₂
    exact ((lowerTypedConst_queues hk).trans (lowerTypedConsts_queues hks)).of_eq
      (List.flatMap_cons ..).symm

theorem lowerElems_queues {context : String} {elem : Ty} :
    ∀ {cs : List Ast.TypedConst} {q q' : FixupQueue} {ks : List Const},
      (s.lowerElems context elem cs).run.run q = (.ok ks, q') →
        s.Queues q q' (ks.flatMap Const.blockRefs)
  | [], q, _, _, h => by
    unfold lowerElems at h
    cases h; exact Queues.refl s q
  | .mk ty value :: rest, _, _, _, h => by
    unfold lowerElems at h
    obtain ⟨written, -, h₁⟩ := LowerM.ofExcept_bind_ok h
    dsimp only at h₁
    obtain ⟨-, h₂⟩ := LowerM.guard_ok (mismatchAt_fails _ _ _) h₁
    obtain ⟨k, q₁, hk, h₃⟩ := LowerM.bind_ok h₂
    obtain ⟨ks, q₂, hks, h₄⟩ := LowerM.bind_ok h₃
    cases h₄
    exact ((lowerConst_queues hk).trans (lowerElems_queues hks)).of_eq (List.flatMap_cons ..).symm

theorem lowerFields_queues :
    ∀ {tys : List Ty} {cs : List Ast.TypedConst} {q q' : FixupQueue} {ks : List Const},
      (s.lowerFields tys cs).run.run q = (.ok ks, q') → s.Queues q q' (ks.flatMap Const.blockRefs)
  | fieldTy :: tys, .mk ty value :: rest, _, _, _, h => by
    unfold lowerFields at h
    obtain ⟨written, -, h₁⟩ := LowerM.ofExcept_bind_ok h
    dsimp only at h₁
    obtain ⟨-, h₂⟩ := LowerM.guard_ok (mismatchAt_fails _ _ _) h₁
    obtain ⟨k, q₁, hk, h₃⟩ := LowerM.bind_ok h₂
    obtain ⟨ks, q₂, hks, h₄⟩ := LowerM.bind_ok h₃
    cases h₄
    exact ((lowerConst_queues hk).trans (lowerFields_queues hks)).of_eq (List.flatMap_cons ..).symm
  | [], _, q, _, _, h => by
    unfold lowerFields at h
    cases h; exact Queues.refl s q
  | _ :: _, [], q, _, _, h => by
    unfold lowerFields at h
    cases h; exact Queues.refl s q

end

/-! ## Traversals -/

section Traversals

variable {γ α : Type} {f : γ → LowerM α} {g : α → List BlockRef}

/-- **A traversal queues** the block addresses of its results, in order, when each step queues
    those of its own result. -/
theorem mapM_queues (hf : ∀ {x q q' y}, (f x).run.run q = (.ok y, q') → s.Queues q q' (g y)) :
    ∀ {xs : List γ} {q q' : FixupQueue} {ys : List α}, (xs.mapM f).run.run q = (.ok ys, q') →
      s.Queues q q' (ys.flatMap g)
  | [], q, _, _, h => by
    rw [List.mapM_nil, LowerM.run_pure] at h
    cases h
    exact Queues.refl s q
  | _ :: _, _, _, _, h => by
    obtain ⟨y, ys, q₁, hy, hys, rfl⟩ := LowerM.mapM_cons_ok h
    exact ((hf hy).trans (mapM_queues hf hys)).of_eq (List.flatMap_cons ..).symm

/-- An optional step queues the block addresses of its result, if it ran. -/
theorem optionMapM_queues (hf : ∀ {x q q' y}, (f x).run.run q = (.ok y, q') → s.Queues q q' (g y)) :
    ∀ {o : Option γ} {q q' : FixupQueue} {r : Option α}, (o.mapM f).run.run q = (.ok r, q') →
      s.Queues q q' (r.toList.flatMap g)
  | none, q, _, _, h => by
    rw [Option.mapM_none, LowerM.run_pure] at h
    cases h
    exact Queues.refl s q
  | some _, _, _, _, h => by
    rw [Option.mapM_some, map_eq_pure_bind] at h
    obtain ⟨y, q₁, hy, h₁⟩ := LowerM.bind_ok h
    rw [LowerM.run_pure] at h₁
    cases h₁
    exact (hf hy).of_eq (by simp)

/-- A plain check run on an optional element queues nothing. -/
theorem optionMapM_ofExcept_queues {check : γ → Except IrError α} {o : Option γ}
    {q q' : FixupQueue} {r : Option α}
    (h : (o.mapM fun x => LowerM.ofExcept (check x)).run.run q = (.ok r, q')) :
    s.Queues q q' [] := by
  have hstep : ∀ {x : γ} {q₁ q₂ : FixupQueue} {y : α},
      (LowerM.ofExcept (check x)).run.run q₁ = (.ok y, q₂) →
        s.Queues q₁ q₂ ((fun _ => ([] : List BlockRef)) y) :=
    fun hx => Queues.of_queue_eq (LowerM.ofExcept_ok hx).2
  exact (optionMapM_queues hstep h).of_eq (by simp)

end Traversals

/-! ## Operands, instructions and blocks -/

section Body

variable {l : Locals}

/-- **A checked operand queues its own block addresses.** -/
theorem lowerValue_queues {expected : Ty} {v : Ast.Value} {w : Value} {q q' : FixupQueue}
    (h : (s.lowerValue l expected v).run.run q = (.ok w, q')) : s.Queues q q' w.blockRefs := by
  cases v with
  | localRef name =>
    unfold lowerValue at h
    obtain ⟨⟨slot, ty⟩, -, h₁⟩ := LowerM.ofExcept_bind_ok h
    dsimp only at h₁
    obtain ⟨-, h₂⟩ := LowerM.guard_ok (mismatchAt_fails _ _ _) h₁
    cases h₂
    exact Queues.refl s q
  | const c =>
    unfold lowerValue at h
    obtain ⟨k, q₁, hk, h₁⟩ := LowerM.bind_ok h
    cases h₁
    exact lowerConst_queues hk

theorem lowerTypedValue_queues {v : Ast.TypedValue} {w : Value} {q q' : FixupQueue}
    (h : (s.lowerTypedValue l v).run.run q = (.ok w, q')) : s.Queues q q' w.blockRefs := by
  unfold lowerTypedValue at h
  obtain ⟨ty, -, h₁⟩ := LowerM.ofExcept_bind_ok h
  exact lowerValue_queues h₁

/-- A checked call queues the block addresses of its callee, then of its arguments. -/
theorem lowerCall_queues {c : Ast.Call} {C : Call} {q q' : FixupQueue}
    (h : (s.lowerCall l c).run.run q = (.ok C, q')) :
    s.Queues q q' (C.values.flatMap Value.blockRefs) := by
  unfold lowerCall at h
  obtain ⟨sig, -, h₁⟩ := LowerM.ofExcept_bind_ok h
  obtain ⟨callee, q₁, hcallee, h₂⟩ := LowerM.bind_ok h₁
  obtain ⟨args, q₂, hargs, h₃⟩ := LowerM.bind_ok h₂
  dsimp only at h₃
  obtain ⟨-, h₄⟩ := LowerM.guard_ok (mismatchAt_fails _ _ _) h₃
  cases h₄
  exact ((lowerValue_queues hcallee).trans (mapM_queues lowerTypedValue_queues hargs)).of_eq
    (List.flatMap_cons ..).symm

/-- Checking what an address points to queues nothing. -/
theorem checkPointee_queues {ptr : Value} {ty : Ty} {context : String} {q q' : FixupQueue}
    (h : (s.checkPointee ptr ty context).run.run q = (.ok (), q')) : s.Queues q q' [] := by
  unfold checkPointee at h
  split at h
  · split at h
    · cases h
      exact Queues.refl s q
    · cases h
  · cases h

/-- **A checked instruction queues the block addresses of its operands**, in order. -/
theorem lowerInst_queues {r : Option Nat} {k : Ast.InstKind} {I : Instruction} {q q' : FixupQueue}
    (h : (s.lowerInst l r k).run.run q = (.ok I, q')) :
    s.Queues q q' (I.kind.values.flatMap Value.blockRefs) := by
  have pair : ∀ {q₁ q₂ q₃ : FixupQueue} {a b : Value}, s.Queues q₁ q₂ a.blockRefs →
      s.Queues q₂ q₃ b.blockRefs → s.Queues q₁ q₃ ([a, b].flatMap Value.blockRefs) :=
    fun ha hb => (ha.trans hb).of_eq (by simp)
  cases k with
  | binary op lhs rhs =>
    unfold lowerInst at h
    obtain ⟨a, q₁, ha, h₁⟩ := LowerM.bind_ok h
    dsimp only at h₁
    split at h₁
    · obtain ⟨b, q₂, hb, h₂⟩ := LowerM.bind_ok h₁
      cases h₂
      exact pair (lowerTypedValue_queues ha) (lowerValue_queues hb)
    · exact absurd h₁ mismatchAt_bind_ne_ok
  | icmp pred lhs rhs =>
    unfold lowerInst at h
    obtain ⟨a, q₁, ha, h₁⟩ := LowerM.bind_ok h
    dsimp only at h₁
    -- an integer and a pointer operand pass alike
    have done : ∀ {q₁ : FixupQueue}, s.Queues q q₁ a.blockRefs → (do
        let b ← s.lowerValue l a.ty rhs
        return (⟨r, .icmp pred a b⟩ : Instruction)).run.run q₁ = (.ok I, q') →
        s.Queues q q' (I.kind.values.flatMap Value.blockRefs) := by
      intro q₁ ha h₂
      obtain ⟨b, q₂, hb, h₃⟩ := LowerM.bind_ok h₂
      cases h₃
      exact pair ha (lowerValue_queues hb)
    split at h₁
    · exact done (lowerTypedValue_queues ha) h₁
    · exact done (lowerTypedValue_queues ha) h₁
    · exact absurd h₁ mismatchAt_bind_ne_ok
  | alloca elem =>
    unfold lowerInst at h
    obtain ⟨e, -, h₁⟩ := LowerM.ofExcept_bind_ok h
    cases h₁
    exact Queues.refl s q
  | load ty ptr =>
    unfold lowerInst at h
    obtain ⟨t, -, h₁⟩ := LowerM.ofExcept_bind_ok h
    obtain ⟨p, q₁, hp, h₂⟩ := LowerM.bind_ok h₁
    obtain ⟨_, q₂, hc, h₃⟩ := LowerM.bind_ok h₂
    cases h₃
    exact ((lowerTypedValue_queues hp).trans (checkPointee_queues hc)).of_eq
      (by simp [InstKind.values])
  | store value ptr =>
    unfold lowerInst at h
    obtain ⟨v, q₁, hv, h₁⟩ := LowerM.bind_ok h
    obtain ⟨p, q₂, hp, h₂⟩ := LowerM.bind_ok h₁
    obtain ⟨_, q₃, hc, h₃⟩ := LowerM.bind_ok h₂
    cases h₃
    exact (pair (lowerTypedValue_queues hv) (lowerTypedValue_queues hp)).trans
      (checkPointee_queues hc) |>.of_eq (List.append_nil _)
  | phi ty incoming =>
    unfold lowerInst at h
    obtain ⟨t, -, h₁⟩ := LowerM.ofExcept_bind_ok h
    obtain ⟨pairs, q₁, hpairs, h₂⟩ := LowerM.bind_ok h₁
    cases h₂
    refine (mapM_queues (g := fun (pr : Value × Nat) => pr.1.blockRefs) ?_ hpairs).of_eq
      (by simp [InstKind.values, List.flatMap_map])
    -- an incoming pair queues its value's block addresses; its block is a plain lookup
    intro x q₂ q₃ y hy
    obtain ⟨v, b⟩ := x
    obtain ⟨w, q₄, hw, h₃⟩ := LowerM.bind_ok hy
    obtain ⟨slot, -, h₄⟩ := LowerM.ofExcept_bind_ok h₃
    cases h₄
    exact lowerValue_queues hw
  | call c =>
    unfold lowerInst at h
    obtain ⟨C, q₁, hC, h₁⟩ := LowerM.bind_ok h
    cases h₁
    exact lowerCall_queues hC

/-- **A checked terminator queues the block addresses of its operands.** -/
theorem lowerTerm_queues {retTy : Ty} {r : Option Nat} {t : Ast.Terminator} {T : Terminator}
    {q q' : FixupQueue} (h : (s.lowerTerm l retTy r t).run.run q = (.ok T, q')) :
    s.Queues q q' (T.values.flatMap Value.blockRefs) := by
  cases t with
  | ret value =>
    cases value with
    | none =>
      simp only [lowerTerm] at h
      split at h
      · rw [run_mismatchAt] at h
        cases h
      · cases h
        exact Queues.refl s q
    | some value =>
      simp only [lowerTerm] at h
      obtain ⟨v, q₁, hv, h₁⟩ := LowerM.bind_ok h
      obtain ⟨-, h₂⟩ := LowerM.guard_ok (mismatchAt_fails _ _ _) h₁
      cases h₂
      exact (lowerTypedValue_queues hv).of_eq (by simp [Terminator.values])
  | br target =>
    simp only [lowerTerm] at h
    obtain ⟨slot, -, h₁⟩ := LowerM.ofExcept_bind_ok h
    cases h₁
    exact Queues.refl s q
  | condBr cond thenBlock elseBlock =>
    simp only [lowerTerm] at h
    obtain ⟨c, q₁, hc, h₁⟩ := LowerM.bind_ok h
    obtain ⟨-, h₂⟩ := LowerM.guard_ok (mismatchAt_fails _ _ _) h₁
    obtain ⟨a, -, h₃⟩ := LowerM.ofExcept_bind_ok h₂
    obtain ⟨b, -, h₄⟩ := LowerM.ofExcept_bind_ok h₃
    cases h₄
    exact (lowerTypedValue_queues hc).of_eq (by simp [Terminator.values])
  | unreachable =>
    simp only [lowerTerm] at h
    cases h
    exact Queues.refl s q
  | invoke res call normal unwind =>
    simp only [lowerTerm] at h
    obtain ⟨C, q₁, hC, h₁⟩ := LowerM.bind_ok h
    obtain ⟨n, -, h₂⟩ := LowerM.ofExcept_bind_ok h₁
    obtain ⟨u, -, h₃⟩ := LowerM.ofExcept_bind_ok h₂
    cases h₃
    exact lowerCall_queues hC

/-- **A checked block queues the block addresses of its operands**: its instructions', then its
    terminator's. -/
theorem lowerBlock_queues {retTy : Ty} {b : Ast.Block} {d : DeclaredBlock} {B : Block}
    {q q' : FixupQueue} (h : (s.lowerBlock l retTy b d).run.run q = (.ok B, q')) :
    s.Queues q q' (B.values.flatMap Value.blockRefs) := by
  unfold lowerBlock at h
  obtain ⟨insts, q₁, hinsts, h₁⟩ := LowerM.bind_ok h
  obtain ⟨term, q₂, hterm, h₂⟩ := LowerM.bind_ok h₁
  cases h₂
  refine ((mapM_queues (g := fun (I : Instruction) => I.kind.values.flatMap Value.blockRefs) ?_
    hinsts).trans (lowerTerm_queues hterm)).of_eq
    (by simp [Block.values, List.flatMap_append, List.flatMap_assoc])
  intro x q₃ q₄ I hI
  obtain ⟨i, r⟩ := x
  exact lowerInst_queues hI

end Body

/-! ## Functions, globals and the items of a module -/

/-- **A checked header queues the block addresses of its prefix, prologue and personality**; it
    has no body yet. -/
theorem lowerHeader_queues {h : Ast.Header} {func : Function} {q q' : FixupQueue}
    (hh : (s.lowerHeader h).run.run q = (.ok func, q')) :
    s.Queues q q' func.headerRefs ∧ func.values = [] := by
  unfold lowerHeader at hh
  obtain ⟨sig, -, h₁⟩ := LowerM.ofExcept_bind_ok hh
  obtain ⟨comdat, q₁, hcomdat, h₂⟩ := LowerM.bind_ok h₁
  obtain ⟨prefixData, q₂, hprefix, h₃⟩ := LowerM.bind_ok h₂
  obtain ⟨prologue, q₃, hprologue, h₄⟩ := LowerM.bind_ok h₃
  obtain ⟨personality, q₄, hpersonality, h₅⟩ := LowerM.bind_ok h₄
  cases h₅
  refine ⟨?_, rfl⟩
  exact ((((optionMapM_ofExcept_queues hcomdat).trans
    (optionMapM_queues lowerTypedConst_queues hprefix)).trans
    (optionMapM_queues lowerTypedConst_queues hprologue)).trans
    (optionMapM_queues lowerTypedConst_queues hpersonality)).of_eq
    (by simp [Function.headerRefs, List.flatMap_append])

/-- **A checked function queues its own block addresses**: its header's, then its blocks' and its
    use-list orders'. -/
theorem lowerFunctionIn_queues {f : Ast.Function} {F : Function} {q q' : FixupQueue}
    (h : (s.lowerFunctionIn f).run.run q = (.ok F, q')) : s.Queues q q' F.blockRefs := by
  unfold lowerFunctionIn at h
  obtain ⟨func, q₁, hfunc, h₁⟩ := LowerM.bind_ok h
  obtain ⟨hheader, hvalues⟩ := lowerHeader_queues hfunc
  split at h₁
  · -- a declaration: its header is all there is
    cases h₁
    have hv : ({ func with metadata := f.metadata } : Function).values = [] := hvalues
    exact hheader.of_eq (by rw [Function.blockRefs, hv, List.flatMap_nil, List.append_nil]; rfl)
  · obtain ⟨⟨slots, ds, l⟩, -, h₂⟩ := LowerM.ofExcept_bind_ok h₁
    obtain ⟨Bs, q₂, hBs, h₃⟩ := LowerM.bind_ok h₂
    obtain ⟨us, q₃, hus, h₄⟩ := LowerM.bind_ok h₃
    cases h₄
    have hblocks := mapM_queues (g := fun (B : Block) => B.values.flatMap Value.blockRefs)
      (fun {x} {q₄ q₅} {B} hB => by
        obtain ⟨b, d⟩ := x
        exact lowerBlock_queues hB) hBs
    have huses := mapM_queues (g := fun (U : UseListOrder) => U.value.blockRefs)
      (fun hU => by
        obtain ⟨v, q₆, hv, h₅⟩ := LowerM.bind_ok hU
        cases h₅
        exact lowerTypedValue_queues hv) hus
    exact ((hheader.trans hblocks).trans huses).of_eq
      (by simp [Function.blockRefs, Function.headerRefs, Function.values, List.flatMap_append,
        List.flatMap_assoc, List.flatMap_map])

theorem lowerFunction_queues {f : Ast.Function} {F : Function} {q q' : FixupQueue}
    (h : (s.lowerFunction f).run.run q = (.ok F, q')) : s.Queues q q' F.blockRefs :=
  lowerFunctionIn_queues (lowerFunctionIn_of_lowerFunction h)

/-- **A checked global queues the block addresses of its initializer.** -/
theorem lowerGlobal_queues {g : Ast.Global} {G : Global} {q q' : FixupQueue}
    (h : (s.lowerGlobal g).run.run q = (.ok G, q')) : s.Queues q q' G.blockRefs := by
  unfold lowerGlobal at h
  obtain ⟨contentTy, -, h₁⟩ := LowerM.ofExcept_bind_ok h
  obtain ⟨init, q₁, hinit, h₂⟩ := LowerM.bind_ok h₁
  obtain ⟨comdat, q₂, hcomdat, h₃⟩ := LowerM.bind_ok h₂
  cases h₃
  exact ((optionMapM_queues lowerConst_queues hinit).trans
    (optionMapM_ofExcept_queues hcomdat)).of_eq (List.append_nil _)

/-- **The items of a module queue every block address they hold, and nothing else**: those of the
    checked globals, then those of the checked functions, each naming a function of the scope. -/
theorem lowerItems_queues {m : Ast.Module} {globals : List Global} {funcs : List Function}
    {q q' : FixupQueue} (h : (s.lowerItems m).run.run q = (.ok (globals, funcs), q')) :
    s.Queues q q' (globals.flatMap Global.blockRefs ++ funcs.flatMap Function.blockRefs) := by
  unfold lowerItems at h
  obtain ⟨globals', q₁, hglobals, h₁⟩ := LowerM.bind_ok h
  obtain ⟨funcs', q₂, hfuncs, h₂⟩ := LowerM.bind_ok h₁
  rw [LowerM.run_pure] at h₂
  cases h₂
  exact (mapM_queues lowerGlobal_queues hglobals).trans (mapM_queues lowerFunction_queues hfuncs)

end Scope

end LlvmAsm
