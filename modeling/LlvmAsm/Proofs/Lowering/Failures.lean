import LlvmAsm.Proofs.Lowering.Run
import LlvmAsm.Ast.Grammar.Module

/-!
# `Proofs.Lowering.Failures` — which failures a check can report

`Except.Raises P x` says that every failure of `x` satisfies `P`, and `LowerM.Raises P x` says it
of every run of `x`, from any queue. Both are closed under sequencing and traversal, so the lemma
of a check follows its definition step by step and cites the lemmas of the checks it calls.

The failure followed here is `IrError.idsExhausted`, the one a check reports when the implicit
numbering of locals runs past the largest 32-bit number. Every failure of checking a type, a
signature, a literal or a symbol and of resolving block addresses is `IrError.Ordinary`: it is not
that one. The checks built from these (constants, operands, instructions, terminators, headers,
globals) inherit this in `Proofs.Lowering.Steps`. Among the checks, the first pass over a body,
which defines the locals, is the only place it can come from; numbering a checked function, whose
counter is 32 bits too, is the other (`Function.assignIds_exhausted`).
-/

namespace LlvmAsm

/-- A failure other than running out of local numbers. -/
def IrError.Ordinary (e : IrError) : Prop := e ≠ .idsExhausted

@[simp] theorem IrError.ordinary_iff {e : IrError} : e.Ordinary ↔ e ≠ .idsExhausted := Iff.rfl

@[simp] theorem IrError.mismatch_ne_idsExhausted (context expected found : String) :
    IrError.mismatch context expected found ≠ .idsExhausted := by
  simp [mismatch]

/-- A failure attached to a function is ordinary exactly when the failure itself is. -/
theorem IrError.ordinary_within {e : IrError} (func : String) :
    (e.within func).Ordinary ↔ e.Ordinary := by
  cases e <;> simp [within, Ordinary]

namespace Except

variable {ε α β : Type} {P : ε → Prop}

/-- Every failure of `x` satisfies `P`. -/
def Raises (P : ε → Prop) (x : Except ε α) : Prop := ∀ e, x = .error e → P e

theorem Raises.mono {Q : ε → Prop} {x : Except ε α} (hx : Raises P x) (h : ∀ e, P e → Q e) :
    Raises Q x :=
  fun e he => h e (hx e he)

/-- A computation raises at most its own failure. -/
theorem Raises.self (x : Except ε α) : Raises (fun e => x = .error e) x := fun _ he => he

theorem Raises.ok (a : α) : Raises P (Except.ok a : Except ε α) := fun _ h => nomatch h

theorem Raises.pure (a : α) : Raises P (Pure.pure a : Except ε α) := fun _ h => nomatch h

theorem Raises.error {e : ε} (h : P e) : Raises P (Except.error e : Except ε α) := by
  rintro _ ⟨⟩
  exact h

theorem Raises.throw {e : ε} (h : P e) : Raises P (throw e : Except ε α) := by
  rintro _ ⟨⟩
  exact h

/-- A failure stops a sequence. -/
theorem Raises.throw_bind {e : ε} {f : α → Except ε β} (h : P e) :
    Raises P (MonadExcept.throw e >>= f : Except ε β) := by
  rintro _ ⟨⟩
  exact h

theorem Raises.bind {x : Except ε α} {f : α → Except ε β} (hx : Raises P x)
    (hf : ∀ a, Raises P (f a)) : Raises P (x >>= f) := by
  intro e he
  cases x with
  | error e' =>
    have herr : (Except.error e' >>= f) = Except.error e' := rfl
    rw [herr] at he
    cases he
    exact hx e rfl
  | ok a => exact hf a e he

theorem Raises.map {x : Except ε α} {f : α → β} (hx : Raises P x) : Raises P (f <$> x) :=
  fun e he => hx e (map_eq_error_iff.mp he)

theorem Raises.mapM {f : α → Except ε β} {xs : List α} (hf : ∀ a ∈ xs, Raises P (f a)) :
    Raises P (xs.mapM f) := by
  intro e he
  obtain ⟨a, ha, hfa⟩ := mapM_eq_error he
  exact hf a ha e hfa

theorem Raises.forM {f : α → Except ε Unit} {xs : List α} (hf : ∀ a ∈ xs, Raises P (f a)) :
    Raises P (xs.forM f) := by
  intro e he
  obtain ⟨a, ha, hfa⟩ := forM_eq_error he
  exact hf a ha e hfa

end Except

namespace LowerM

variable {α β : Type} {P : IrError → Prop}

/-- Every failure of every run of `x` satisfies `P`. -/
def Raises (P : IrError → Prop) (x : LowerM α) : Prop := ∀ q, Except.Raises P (x.run.run q).1

theorem Raises.mono {Q : IrError → Prop} {x : LowerM α} (hx : x.Raises P) (h : ∀ e, P e → Q e) :
    x.Raises Q :=
  fun q e he => h e (hx q e he)

theorem Raises.pure (a : α) : (Pure.pure a : LowerM α).Raises P := fun _ _ h => nomatch h

theorem Raises.throw {e : IrError} (h : P e) : (throw e : LowerM α).Raises P := by
  rintro q _ ⟨⟩
  exact h

theorem Raises.ofExcept {x : Except IrError α} (hx : Except.Raises P x) : (LowerM.ofExcept x).Raises P := by
  intro q
  rw [run_ofExcept]
  exact hx

theorem Raises.modify (f : FixupQueue → FixupQueue) : (modify f : LowerM Unit).Raises P := by
  intro q
  rw [run_modify]
  exact .ok _

theorem Raises.bind {x : LowerM α} {f : α → LowerM β} (hx : x.Raises P) (hf : ∀ a, (f a).Raises P) :
    (x >>= f).Raises P := by
  intro q e he
  rw [run_bind] at he
  rcases hrun : x.run.run q with ⟨r, q'⟩
  rw [hrun] at he
  cases r with
  | error e' =>
    cases he
    exact hx q e (by rw [hrun])
  | ok a => exact hf a q' e he

theorem Raises.mapM {γ : Type} {f : γ → LowerM α} :
    ∀ {xs : List γ}, (∀ c ∈ xs, (f c).Raises P) → (xs.mapM f).Raises P
  | [], _ => by
    rw [List.mapM_nil]
    exact .pure _
  | c :: cs, hf => by
    rw [List.mapM_cons]
    exact .bind (hf c List.mem_cons_self) fun _ =>
      .bind (Raises.mapM fun c' hc' => hf c' (List.mem_cons_of_mem _ hc')) fun _ => .pure _

end LowerM

/-! ## Types, comdats and symbols -/

namespace Scope

variable (s : Scope)

mutual

theorem lowerType_ordinary : ∀ ty : Ty, Except.Raises IrError.Ordinary (s.lowerType ty)
  | .int bits => by
    unfold lowerType
    split
    · exact .error (by simp [IrError.Ordinary])
    · exact .ok _
  | .pointer elem _ => .bind (lowerType_ordinary elem) fun _ => .pure _
  | .array _ elem => .bind (lowerType_ordinary elem) fun _ => .pure _
  | .vector _ elem => .bind (lowerType_ordinary elem) fun _ => .pure _
  | .struct _ fields => .bind (lowerTypes_ordinary fields) fun _ => .pure _
  | .func ret params _ =>
    .bind (lowerType_ordinary ret) fun _ => .bind (lowerTypes_ordinary params) fun _ => .pure _
  | .named name => by
    unfold lowerType
    split
    · exact .ok _
    · exact .error (by simp [IrError.Ordinary])
  | .void => .ok _
  | .float _ => .ok _
  | .label => .ok _
  | .token => .ok _

theorem lowerTypes_ordinary : ∀ tys : List Ty, Except.Raises IrError.Ordinary (s.lowerTypes tys)
  | [] => .ok _
  | t :: ts =>
    .bind (lowerType_ordinary t) fun _ => .bind (lowerTypes_ordinary ts) fun _ => .pure _

end

theorem lowerSignature_ordinary (h : Ast.Header) :
    Except.Raises IrError.Ordinary (s.lowerSignature h) :=
  .bind (s.lowerType_ordinary _) fun _ => .bind (s.lowerTypes_ordinary _) fun _ => .pure _

theorem comdat_ordinary (name : String) : Except.Raises IrError.Ordinary (s.comdat name) := by
  unfold comdat
  split
  · exact .ok _
  · exact .error (by simp [IrError.Ordinary])

theorem lowerComdat_ordinary (owner : String) (c : Ast.ComdatRef) :
    Except.Raises IrError.Ordinary (s.lowerComdat owner c) := by
  cases c <;> exact s.comdat_ordinary _

theorem declare_ordinary (name : String) (sym : Symbol) :
    Except.Raises IrError.Ordinary (s.declare name sym) := by
  unfold declare
  split
  · exact .error (by simp [IrError.Ordinary])
  · exact .ok _

theorem defineComdats_ordinary :
    ∀ (s : Scope) (cs : List ComdatDef), Except.Raises IrError.Ordinary (s.defineComdats cs)
  | s, [] => .ok s
  | s, c :: cs => by
    unfold defineComdats
    split
    · exact .error (by simp [IrError.Ordinary])
    · exact defineComdats_ordinary _ cs

end Scope

namespace TypeTable

theorem declareAll_ordinary :
    ∀ (t : TypeTable) (defs : List Ast.TypeDef), Except.Raises IrError.Ordinary (declareAll t defs)
  | t, [] => .ok t
  | t, d :: ds => by
    unfold declareAll
    split
    · exact .error (by simp [IrError.Ordinary])
    · exact declareAll_ordinary _ ds

theorem defineBodies_ordinary :
    ∀ (t : TypeTable) (defs : List Ast.TypeDef), Except.Raises IrError.Ordinary (defineBodies t defs)
  | t, [] => .ok t
  | t, d :: ds => by
    unfold defineBodies
    split
    · exact defineBodies_ordinary t ds
    · refine .bind (Scope.lowerType_ordinary _ _) fun body => ?_
      split
      · exact .bind (.error (by simp [IrError.Ordinary, IrError.mismatch])) fun _ =>
          defineBodies_ordinary _ ds
      · exact defineBodies_ordinary _ ds

theorem define_ordinary (defs : List Ast.TypeDef) : Except.Raises IrError.Ordinary (define defs) :=
  .bind (declareAll_ordinary {} defs) fun t => defineBodies_ordinary t defs

end TypeTable

/-! ## Literals and element addresses -/

theorem IntConst.parse_ordinary (bits : Nat) (text : String) :
    Except.Raises IrError.Ordinary (IntConst.parse bits text) := by
  intro e he
  unfold IntConst.parse at he
  simp only [bind, Except.bind, pure, Except.pure, throw, throwThe, MonadExceptOf.throw] at he
  repeat' split at he
  all_goals cases he <;> simp

theorem FloatConst.parse_ordinary (kind : FloatKind) (text : String) :
    Except.Raises IrError.Ordinary (FloatConst.parse kind text) := by
  intro e he
  unfold FloatConst.parse at he
  simp only [bind, Except.bind, pure, Except.pure, throw, throwThe, MonadExceptOf.throw] at he
  repeat' split at he
  all_goals cases he <;> simp

theorem gepWalk_ordinary (table : TypeTable) :
    ∀ (cur : Ty) (indices : List Const), Except.Raises IrError.Ordinary (gepWalk table cur indices)
  | cur, [] => .ok cur
  | cur, index :: rest => by
    unfold gepWalk
    split
    · dsimp only
      split
      · exact gepWalk_ordinary table _ rest
      · exact .error (by simp)
    · exact gepWalk_ordinary table _ rest
    · exact gepWalk_ordinary table _ rest
    · exact .error (by simp)

theorem gepResultType_ordinary (table : TypeTable) (elem baseTy : Ty) (indices : List Const) :
    Except.Raises IrError.Ordinary (gepResultType table elem baseTy indices) := by
  unfold gepResultType
  split
  · dsimp only
    split
    · exact .throw_bind (by simp)
    · split
      · split
        · exact .bind (gepWalk_ordinary table _ _) fun _ => .pure _
        · exact .throw_bind (by simp)
      · exact .pure _
  · exact .error (by simp)


/-! ## Symbols, signatures and locals -/

namespace Scope

variable (s : Scope)

theorem declareGlobals_ordinary :
    ∀ (s : Scope) (gs : List Ast.Global), Except.Raises IrError.Ordinary (s.declareGlobals gs)
  | s, [] => .ok s
  | s, _ :: gs => .bind (s.lowerType_ordinary _) fun _ =>
      .bind (s.declare_ordinary _ _) fun s' => declareGlobals_ordinary s' gs

theorem declareFunctions_ordinary :
    ∀ (s : Scope) (fs : List Ast.Function), Except.Raises IrError.Ordinary (s.declareFunctions fs)
  | s, [] => .ok s
  | s, _ :: fs => .bind (s.lowerSignature_ordinary _) fun _ =>
      .bind (s.declare_ordinary _ _) fun s' => declareFunctions_ordinary s' fs

theorem ofModule_ordinary (m : Ast.Module) : Except.Raises IrError.Ordinary (Scope.ofModule m) :=
  .bind (TypeTable.define_ordinary _) fun _ => .bind (defineComdats_ordinary _ _) fun _ =>
    .bind (declareGlobals_ordinary _ _) fun s => declareFunctions_ordinary s _

theorem callSignature_ordinary (c : Ast.Call) : Except.Raises IrError.Ordinary (s.callSignature c) := by
  unfold callSignature
  refine .bind (s.lowerType_ordinary _) fun ty => ?_
  split
  · exact .pure _
  · exact .bind (s.lowerTypes_ordinary _) fun _ => .pure _

theorem resultType_ordinary (kind : Ast.InstKind) :
    Except.Raises IrError.Ordinary (s.resultType kind) := by
  cases kind with
  | binary _ lhs _ => exact .map (s.lowerType_ordinary _)
  | icmp => exact .pure _
  | alloca => exact .bind (s.lowerType_ordinary _) fun _ => .pure _
  | load => exact .map (s.lowerType_ordinary _)
  | phi => exact .map (s.lowerType_ordinary _)
  | store => exact .pure _
  | call c => exact .bind (s.callSignature_ordinary c) fun _ => .pure _

end Scope

namespace Locals

variable (l : Locals)

theorem get_ordinary (name : Ast.LocalName) : Except.Raises IrError.Ordinary (l.get name) := by
  unfold get
  split
  · exact .ok _
  · exact .error (by simp)

theorem block_ordinary (name : Ast.LocalName) : Except.Raises IrError.Ordinary (l.block name) := by
  unfold block
  refine .bind (l.get_ordinary name) fun _ => ?_
  dsimp only
  split
  · exact .throw_bind (by simp)
  · exact .pure _

end Locals


/-! ## Block addresses and reading -/

theorem BlockRef.resolve_ordinary (m : Module) (r : BlockRef) :
    Except.Raises IrError.Ordinary (r.resolve m) := by
  unfold BlockRef.resolve
  split
  · exact .error (by simp)
  · split
    · exact .ok _
    · exact .error (by simp)

theorem FixupQueue.drain_ordinary (q : FixupQueue) (m : Module) :
    Except.Raises IrError.Ordinary (q.drain m).1 :=
  .map (.forM fun r _ => BlockRef.resolve_ordinary m r)

/-- Reading reports a position in the text, never anything else. -/
theorem Ast.parseModule_ordinary (text : String) : Except.Raises IrError.Ordinary (Ast.parseModule text) := by
  unfold Ast.parseModule
  dsimp only
  split
  · exact .ok _
  · exact .error (by simp [Ast.ReadError.locate])

end LlvmAsm
