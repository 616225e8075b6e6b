import LlvmAsm.Proofs.Lowering.Failures

/-!
# `Proofs.Lowering.Steps` — what every check is built from

A check of a constant, an operand, an instruction, a terminator, a block, a function header or a
global is a sequence of five kinds of step: returning a value, queueing a block address, failing
with an ordinary failure (`IrError.Ordinary`), running a plain check whose failures are ordinary,
and running the rest after a step. A property of lowering runs that holds of each kind of step and
that sequencing keeps is *closed* (`LowerM.Closed`), and every such check has every closed property
(`Scope.lowerConst_closed`, `Scope.lowerInst_closed`, …): one induction over each check serves
every property.

Two closed properties are used:

* every failure is ordinary (`LowerM.Raises.ordinary_closed`), so such a check never runs out of
  local numbers;
* a run only appends to the queue (`LowerM.Appends`): from any queue it gives the result it gives
  from the empty queue, and adds the same block addresses at the end (`LowerM.Appends.closed`). A
  whole function, whose first pass may also run out of numbers, keeps this
  (`Scope.lowerFunction_appends`), so what a function lowers to does not depend on what was
  lowered before it.
-/

namespace LlvmAsm

namespace LowerM

/-- **A closed property** of lowering runs: it holds of returning, of queueing a block address, of
failing with an ordinary failure and of a plain check whose failures are ordinary, and of a
sequence whose steps have it. -/
structure Closed (Good : {α : Type} → LowerM α → Prop) : Prop where
  pure : ∀ {α : Type} (a : α), Good (Pure.pure a : LowerM α)
  push : ∀ r : BlockRef, Good (modify fun q : FixupQueue => q.push r)
  throw : ∀ {α : Type} {e : IrError}, e.Ordinary → Good (throw e : LowerM α)
  ofExcept : ∀ {α : Type} {x : Except IrError α}, Except.Raises IrError.Ordinary x →
    Good (LowerM.ofExcept x)
  bind : ∀ {α β : Type} {x : LowerM α} {f : α → LowerM β},
    Good x → (∀ a, Good (f a)) → Good (x >>= f)

/-- A failure stops a sequence. -/
theorem throw_bind {α β : Type} (e : IrError) (f : α → LowerM β) :
    (throw e >>= f : LowerM β) = throw e := rfl

namespace Closed

variable {Good : {α : Type} → LowerM α → Prop} {α β γ : Type}

theorem throw_bind (hG : Closed Good) {e : IrError} (h : e.Ordinary) (f : α → LowerM β) :
    Good (MonadExcept.throw e >>= f) := by
  rw [LowerM.throw_bind]
  exact hG.throw h

theorem mapM (hG : Closed Good) {f : γ → LowerM α} :
    ∀ {xs : List γ}, (∀ c ∈ xs, Good (f c)) → Good (xs.mapM f)
  | [], _ => by
    rw [List.mapM_nil]
    exact hG.pure _
  | c :: cs, hf => by
    rw [List.mapM_cons]
    exact hG.bind (hf c List.mem_cons_self) fun _ =>
      hG.bind (hG.mapM fun c' hc' => hf c' (List.mem_cons_of_mem _ hc')) fun _ => hG.pure _

theorem optionMapM (hG : Closed Good) {f : γ → LowerM α} {o : Option γ}
    (hf : ∀ c ∈ o, Good (f c)) : Good (o.mapM f) := by
  cases o with
  | none => exact hG.pure _
  | some c =>
    simp only [Option.mapM_some]
    exact hG.bind (hf c rfl) fun _ => hG.pure _

end Closed

/-- Every failure being ordinary is a closed property. -/
theorem Raises.ordinary_closed : Closed (Raises IrError.Ordinary) where
  pure := Raises.pure
  push _ := Raises.modify _
  throw := Raises.throw
  ofExcept := Raises.ofExcept
  bind := Raises.bind

end LowerM

/-! ## Constants -/

namespace Scope

variable {Good : {α : Type} → LowerM α → Prop} (hG : LowerM.Closed Good) (s : Scope)
include hG

theorem mismatchAt_closed {α : Type} (context expected found : String) :
    Good (mismatchAt context expected found : LowerM α) :=
  hG.throw (by simp)

/-- A refused check stops a sequence. -/
theorem mismatchAt_bind_closed {α β : Type} (context expected found : String)
    (f : α → LowerM β) : Good (mismatchAt context expected found >>= f) :=
  hG.throw_bind (by simp) f

theorem expressionAt_closed (expected : Ty) (e : Const) : Good (s.expressionAt expected e) := by
  unfold expressionAt
  split
  · exact hG.pure _
  · exact mismatchAt_closed hG _ _ _

mutual

theorem lowerConst_closed (expected : Ty) : ∀ c : Ast.Const, Good (s.lowerConst expected c)
  | .bool _ => by
    unfold lowerConst
    split
    · exact hG.pure _
    · exact mismatchAt_closed hG _ _ _
  | .int _ => by
    unfold lowerConst
    split
    · exact hG.bind (hG.ofExcept (IntConst.parse_ordinary _ _)) fun _ => hG.pure _
    · exact mismatchAt_closed hG _ _ _
  | .float _ => by
    unfold lowerConst
    split
    · exact hG.bind (hG.ofExcept (FloatConst.parse_ordinary _ _)) fun _ => hG.pure _
    · exact mismatchAt_closed hG _ _ _
  | .null => by
    unfold lowerConst
    split
    · exact hG.pure _
    · exact mismatchAt_closed hG _ _ _
  | .none => by
    unfold lowerConst
    split
    · exact hG.pure _
    · exact mismatchAt_closed hG _ _ _
  | .struct _ fields => by
    unfold lowerConst
    split
    · split
      · exact hG.bind (lowerFields_closed _ fields) fun _ => hG.pure _
      · exact mismatchAt_closed hG _ _ _
    · exact mismatchAt_closed hG _ _ _
  | .array elems => by
    unfold lowerConst
    split
    · split
      · exact mismatchAt_closed hG _ _ _
      · exact hG.bind (lowerElems_closed _ _ elems) fun _ => hG.pure _
    · exact mismatchAt_closed hG _ _ _
  | .vector elems => by
    unfold lowerConst
    split
    · split
      · exact mismatchAt_closed hG _ _ _
      · exact hG.bind (lowerElems_closed _ _ elems) fun _ => hG.pure _
    · exact mismatchAt_closed hG _ _ _
  | .chars _ => by
    unfold lowerConst
    split
    · exact hG.throw (by simp)
    · dsimp only
      split
      · exact mismatchAt_closed hG _ _ _
      · exact hG.pure _
  | .zeroInit => hG.pure _
  | .undef => hG.pure _
  | .blockAddress _ _ => by
    unfold lowerConst
    dsimp only
    split
    · split
      · exact hG.bind (mismatchAt_closed hG _ _ _) fun _ => hG.bind (hG.push _) fun _ => hG.pure _
      · exact hG.bind (hG.push _) fun _ => hG.pure _
    · exact hG.throw_bind (by simp) _
  | .global _ => by
    unfold lowerConst
    split
    · exact hG.throw (by simp)
    · dsimp only
      split
      · exact hG.bind (mismatchAt_closed hG _ _ _) fun _ => hG.pure _
      · exact hG.pure _
  | .cast _ value _ => by
    unfold lowerConst
    refine hG.bind (lowerTypedConst_closed value) fun _ =>
      hG.bind (hG.ofExcept (s.lowerType_ordinary _)) fun _ => ?_
    dsimp only
    split
    · exact hG.bind (mismatchAt_closed hG _ _ _) fun _ => expressionAt_closed hG s _ _
    · exact expressionAt_closed hG s _ _
  | .binary _ lhs (.mk _ rhsValue) => by
    unfold lowerConst
    refine hG.bind (lowerTypedConst_closed lhs) fun _ => ?_
    dsimp only
    split
    · refine hG.bind (hG.ofExcept (s.lowerType_ordinary _)) fun _ => ?_
      split
      · exact mismatchAt_bind_closed hG _ _ _ _
      · exact hG.bind (lowerConst_closed _ rhsValue) fun _ => expressionAt_closed hG s _ _
    · exact mismatchAt_bind_closed hG _ _ _ _
  | .gep _ _ base indices => by
    unfold lowerConst
    exact hG.bind (hG.ofExcept (s.lowerType_ordinary _)) fun _ =>
      hG.bind (lowerTypedConst_closed base) fun _ => hG.bind (lowerTypedConsts_closed indices)
        fun _ => hG.bind (hG.ofExcept (gepResultType_ordinary _ _ _ _)) fun _ =>
          expressionAt_closed hG s _ _

theorem lowerTypedConst_closed : ∀ c : Ast.TypedConst, Good (s.lowerTypedConst c)
  | .mk _ value => hG.bind (hG.ofExcept (s.lowerType_ordinary _)) fun t => lowerConst_closed t value

theorem lowerTypedConsts_closed : ∀ cs : List Ast.TypedConst, Good (s.lowerTypedConsts cs)
  | [] => hG.pure _
  | c :: cs =>
    hG.bind (lowerTypedConst_closed c) fun _ =>
      hG.bind (lowerTypedConsts_closed cs) fun _ => hG.pure _

theorem lowerElems_closed (context : String) (elem : Ty) :
    ∀ cs : List Ast.TypedConst, Good (s.lowerElems context elem cs)
  | [] => hG.pure _
  | .mk _ value :: rest => by
    unfold lowerElems
    refine hG.bind (hG.ofExcept (s.lowerType_ordinary _)) fun _ => ?_
    dsimp only
    split
    · exact mismatchAt_bind_closed hG _ _ _ _
    · exact hG.bind (lowerConst_closed elem value) fun _ =>
        hG.bind (lowerElems_closed context elem rest) fun _ => hG.pure _

theorem lowerFields_closed :
    ∀ (tys : List Ty) (cs : List Ast.TypedConst), Good (s.lowerFields tys cs)
  | fieldTy :: tys, .mk _ value :: rest => by
    unfold lowerFields
    refine hG.bind (hG.ofExcept (s.lowerType_ordinary _)) fun _ => ?_
    dsimp only
    split
    · exact mismatchAt_bind_closed hG _ _ _ _
    · exact hG.bind (lowerConst_closed fieldTy value) fun _ =>
        hG.bind (lowerFields_closed tys rest) fun _ => hG.pure _
  | [], _ => by unfold lowerFields; exact hG.pure _
  | _ :: _, [] => by unfold lowerFields; exact hG.pure _

end

/-! ## Globals, headers and the second pass over a body -/

theorem lowerGlobal_closed (g : Ast.Global) : Good (s.lowerGlobal g) :=
  hG.bind (hG.ofExcept (s.lowerType_ordinary _)) fun _ =>
    hG.bind (hG.optionMapM fun _ _ => lowerConst_closed hG s _ _) fun _ =>
      hG.bind (hG.optionMapM fun _ _ => hG.ofExcept (s.lowerComdat_ordinary _ _)) fun _ => hG.pure _

theorem lowerHeader_closed (h : Ast.Header) : Good (s.lowerHeader h) :=
  hG.bind (hG.ofExcept (s.lowerSignature_ordinary h)) fun _ =>
    hG.bind (hG.optionMapM fun _ _ => hG.ofExcept (s.lowerComdat_ordinary _ _)) fun _ =>
      hG.bind (hG.optionMapM fun c _ => lowerTypedConst_closed hG s c) fun _ =>
        hG.bind (hG.optionMapM fun c _ => lowerTypedConst_closed hG s c) fun _ =>
          hG.bind (hG.optionMapM fun c _ => lowerTypedConst_closed hG s c) fun _ => hG.pure _

variable (l : Locals)

theorem lowerValue_closed (expected : Ty) (v : Ast.Value) : Good (s.lowerValue l expected v) := by
  cases v with
  | localRef name =>
    refine hG.bind (hG.ofExcept (l.get_ordinary name)) fun _ => ?_
    dsimp only
    split
    · exact mismatchAt_bind_closed hG _ _ _ _
    · exact hG.pure _
  | const c => exact hG.bind (lowerConst_closed hG s _ c) fun _ => hG.pure _

theorem lowerTypedValue_closed (v : Ast.TypedValue) : Good (s.lowerTypedValue l v) :=
  hG.bind (hG.ofExcept (s.lowerType_ordinary _)) fun _ => lowerValue_closed hG s l _ _

theorem lowerCall_closed (c : Ast.Call) : Good (s.lowerCall l c) := by
  unfold lowerCall
  refine hG.bind (hG.ofExcept (s.callSignature_ordinary c)) fun _ =>
    hG.bind (lowerValue_closed hG s l _ _) fun _ =>
      hG.bind (hG.mapM fun v _ => lowerTypedValue_closed hG s l v) fun _ => ?_
  dsimp only
  -- the arity test depends on whether the callee is variadic
  split
  all_goals
    split
    · exact mismatchAt_bind_closed hG _ _ _ _
    · exact hG.pure _

theorem checkPointee_closed (ptr : Value) (ty : Ty) (context : String) :
    Good (s.checkPointee ptr ty context) := by
  unfold checkPointee
  dsimp only
  split
  · split
    · exact hG.pure _
    · exact mismatchAt_closed hG _ _ _
  · exact mismatchAt_closed hG _ _ _

theorem lowerInst_closed (result : Option Nat) (kind : Ast.InstKind) :
    Good (s.lowerInst l result kind) := by
  cases kind with
  | binary op lhs rhs =>
    refine hG.bind (lowerTypedValue_closed hG s l lhs) fun _ => ?_
    dsimp only
    split
    · exact hG.bind (lowerValue_closed hG s l _ _) fun _ => hG.pure _
    · exact mismatchAt_bind_closed hG _ _ _ _
  | icmp pred lhs rhs =>
    refine hG.bind (lowerTypedValue_closed hG s l lhs) fun _ => ?_
    dsimp only
    split
    · exact hG.bind (lowerValue_closed hG s l _ _) fun _ => hG.pure _
    · exact hG.bind (lowerValue_closed hG s l _ _) fun _ => hG.pure _
    · exact mismatchAt_bind_closed hG _ _ _ _
  | alloca elem => exact hG.bind (hG.ofExcept (s.lowerType_ordinary _)) fun _ => hG.pure _
  | load ty ptr =>
    exact hG.bind (hG.ofExcept (s.lowerType_ordinary _)) fun _ =>
      hG.bind (lowerTypedValue_closed hG s l ptr) fun _ =>
        hG.bind (checkPointee_closed hG s _ _ _) fun _ => hG.pure _
  | store value ptr =>
    exact hG.bind (lowerTypedValue_closed hG s l value) fun _ =>
      hG.bind (lowerTypedValue_closed hG s l ptr) fun _ =>
        hG.bind (checkPointee_closed hG s _ _ _) fun _ => hG.pure _
  | phi ty incoming =>
    exact hG.bind (hG.ofExcept (s.lowerType_ordinary _)) fun _ =>
      hG.bind (hG.mapM fun _ _ => hG.bind (lowerValue_closed hG s l _ _) fun _ =>
        hG.bind (hG.ofExcept (l.block_ordinary _)) fun _ => hG.pure _) fun _ => hG.pure _
  | call c => exact hG.bind (lowerCall_closed hG s l c) fun _ => hG.pure _

theorem lowerTerm_closed (retTy : Ty) (result : Option Nat) (t : Ast.Terminator) :
    Good (s.lowerTerm l retTy result t) := by
  cases t with
  | ret value =>
    cases value with
    | none =>
      dsimp only [lowerTerm]
      split
      · exact mismatchAt_closed hG _ _ _
      · exact hG.pure _
    | some v =>
      dsimp only [lowerTerm]
      refine hG.bind (lowerTypedValue_closed hG s l v) fun _ => ?_
      split
      · exact mismatchAt_bind_closed hG _ _ _ _
      · exact hG.pure _
  | br target => exact hG.bind (hG.ofExcept (l.block_ordinary _)) fun _ => hG.pure _
  | condBr cond thenBlock elseBlock =>
    dsimp only [lowerTerm]
    refine hG.bind (lowerTypedValue_closed hG s l cond) fun _ => ?_
    split
    · exact mismatchAt_bind_closed hG _ _ _ _
    · exact hG.bind (hG.ofExcept (l.block_ordinary _)) fun _ =>
        hG.bind (hG.ofExcept (l.block_ordinary _)) fun _ => hG.pure _
  | unreachable => exact hG.pure _
  | invoke _ call normal unwind =>
    exact hG.bind (lowerCall_closed hG s l call) fun _ =>
      hG.bind (hG.ofExcept (l.block_ordinary _)) fun _ =>
        hG.bind (hG.ofExcept (l.block_ordinary _)) fun _ => hG.pure _

theorem lowerBlock_closed (retTy : Ty) (b : Ast.Block) (d : DeclaredBlock) :
    Good (s.lowerBlock l retTy b d) :=
  hG.bind (hG.mapM fun _ _ => lowerInst_closed hG s l _ _) fun _ =>
    hG.bind (lowerTerm_closed hG s l _ _ _) fun _ => hG.pure _

end Scope

/-! ## Runs that only append to the queue -/

namespace LowerM

variable {α β γ : Type}

/-- What a run gives from the empty queue. -/
def result (x : LowerM α) : Except IrError α := (x.run.run {}).1

/-- The block addresses a run queues from the empty queue. -/
def queued (x : LowerM α) : List BlockRef := (x.run.run {}).2.pending

@[simp] theorem result_pure (a : α) : (Pure.pure a : LowerM α).result = .ok a := rfl

@[simp] theorem queued_pure (a : α) : (Pure.pure a : LowerM α).queued = [] := rfl

/-- **A run that only appends to the queue**: from any queue it gives its result from the empty
queue, and leaves that queue followed by the block addresses it queues from the empty one. -/
def Appends (x : LowerM α) : Prop := ∀ q, x.run.run q = (x.result, ⟨q.pending ++ x.queued⟩)

namespace Appends

theorem pure (a : α) : (Pure.pure a : LowerM α).Appends := by
  intro q
  simp only [result, queued, run_pure, List.append_nil]

theorem throw (e : IrError) : (throw e : LowerM α).Appends := by
  intro q
  simp only [result, queued, run_throw, List.append_nil]

theorem push (r : BlockRef) : Appends (modify fun q : FixupQueue => q.push r : LowerM Unit) := by
  intro q
  simp only [result, queued, run_modify, FixupQueue.push]
  rfl

theorem ofExcept (x : Except IrError α) : (LowerM.ofExcept x).Appends := by
  intro q
  simp only [result, queued, run_ofExcept, List.append_nil]

/-- After a step that only appends, the rest runs from the queue the step left. -/
theorem run_bind {x : LowerM α} (hx : x.Appends) (f : α → LowerM β) (q : FixupQueue) :
    (x >>= f).run.run q = match x.result with
      | .ok a => (f a).run.run ⟨q.pending ++ x.queued⟩
      | .error e => (.error e, ⟨q.pending ++ x.queued⟩) := by
  rw [LowerM.run_bind, hx q]
  cases x.result <;> rfl

theorem bind {x : LowerM α} {f : α → LowerM β} (hx : x.Appends) (hf : ∀ a, (f a).Appends) :
    (x >>= f).Appends := by
  intro q
  show _ = (((x >>= f).run.run {}).1,
    ({ pending := q.pending ++ ((x >>= f).run.run {}).2.pending } : FixupQueue))
  rw [hx.run_bind f q, hx.run_bind f {}]
  cases x.result with
  | error e => simp
  | ok a =>
    dsimp only
    rw [hf a, hf a]
    simp

theorem tryCatch {x : LowerM α} {handle : IrError → LowerM α} (hx : x.Appends)
    (hh : ∀ e, (handle e).Appends) : (MonadExcept.tryCatch x handle).Appends := by
  intro q
  show _ = (((MonadExcept.tryCatch x handle).run.run {}).1, ({ pending :=
    q.pending ++ ((MonadExcept.tryCatch x handle).run.run {}).2.pending } : FixupQueue))
  rw [run_tryCatch, run_tryCatch, hx q, hx {}]
  cases x.result with
  | ok a => simp
  | error e =>
    dsimp only
    rw [hh e, hh e]
    simp

/-- Only appending to the queue is a closed property. -/
theorem closed : Closed Appends where
  pure := pure
  push := push
  throw _ := throw _
  ofExcept _ := ofExcept _
  bind := bind

theorem mapM {f : γ → LowerM α} {xs : List γ} (hf : ∀ c ∈ xs, (f c).Appends) :
    (xs.mapM f).Appends :=
  closed.mapM hf

/-- The result of a sequence whose steps only append is the sequence of their results. -/
theorem bind_result {x : LowerM α} {f : α → LowerM β} (hx : x.Appends)
    (hf : ∀ a, (f a).Appends) :
    (x >>= f).result = x.result >>= fun a => (f a).result := by
  show ((x >>= f).run.run {}).1 = _
  rw [hx.run_bind f {}]
  cases x.result with
  | error e => rfl
  | ok a =>
    dsimp only
    rw [hf a]
    rfl

/-- A successful sequence whose steps only append queues what its steps queue, in order. -/
theorem bind_queued {x : LowerM α} {f : α → LowerM β} (hx : x.Appends)
    (hf : ∀ a, (f a).Appends) {a : α} (ha : x.result = .ok a) :
    (x >>= f).queued = x.queued ++ (f a).queued := by
  show ((x >>= f).run.run {}).2.pending = _
  rw [hx.run_bind f {}, ha]
  dsimp only
  rw [hf a]
  simp

/-- The result of a traversal whose steps only append is the traversal of their results. -/
theorem mapM_result {f : γ → LowerM α} :
    ∀ {xs : List γ}, (∀ c ∈ xs, (f c).Appends) →
      (xs.mapM f).result = xs.mapM fun c => (f c).result
  | [], _ => rfl
  | c :: cs, hf => by
    have hc := hf c List.mem_cons_self
    have hcs : ∀ c' ∈ cs, (f c').Appends := fun c' hc' => hf c' (List.mem_cons_of_mem _ hc')
    rw [List.mapM_cons, List.mapM_cons, hc.bind_result fun _ => (mapM hcs).bind fun _ => pure _]
    congr 1
    funext b
    rw [(mapM hcs).bind_result fun _ => pure _, mapM_result hcs]
    rfl

/-- A successful traversal whose steps only append queues what each step queues, in order. -/
theorem mapM_queued {f : γ → LowerM α} :
    ∀ {xs : List γ} {ys : List α}, (∀ c ∈ xs, (f c).Appends) →
      (xs.mapM f).result = .ok ys → (xs.mapM f).queued = xs.flatMap fun c => (f c).queued
  | [], _, _, _ => rfl
  | c :: cs, ys, hf, h => by
    have hc := hf c List.mem_cons_self
    have hcs : ∀ c' ∈ cs, (f c').Appends := fun c' hc' => hf c' (List.mem_cons_of_mem _ hc')
    rw [mapM_result hf, List.mapM_cons] at h
    obtain ⟨b, hb, h⟩ := Except.bind_eq_ok_iff.mp h
    obtain ⟨bs, hbs, -⟩ := Except.bind_eq_ok_iff.mp h
    rw [← mapM_result hcs] at hbs
    rw [List.mapM_cons, hc.bind_queued (fun _ => (mapM hcs).bind fun _ => pure _) hb,
      (mapM hcs).bind_queued (fun _ => pure _) hbs, mapM_queued hcs hbs, List.flatMap_cons]
    simp only [queued_pure, List.append_nil]

end Appends

end LowerM

namespace Scope

variable (s : Scope)

/-- **Checking a function only appends to the queue**, its first pass and the failure it reports
under the function's name included. -/
theorem lowerFunction_appends (f : Ast.Function) : (s.lowerFunction f).Appends := by
  have hin : (s.lowerFunctionIn f).Appends := by
    unfold lowerFunctionIn
    refine .bind (lowerHeader_closed LowerM.Appends.closed s _) fun func => ?_
    split
    · exact .pure _
    · refine .bind (.ofExcept _) fun r => ?_
      exact .bind (.mapM fun _ _ => lowerBlock_closed LowerM.Appends.closed s _ _ _ _) fun _ =>
        .bind (.mapM fun _ _ => .bind (lowerTypedValue_closed LowerM.Appends.closed s _ _)
          fun _ => .pure _) fun _ => .pure _
  exact .tryCatch hin fun _ => .throw _

theorem lowerGlobal_appends (g : Ast.Global) : (s.lowerGlobal g).Appends :=
  lowerGlobal_closed LowerM.Appends.closed s g

end Scope

end LlvmAsm
