import LlvmAsm.Proofs.Lowering.Steps
import LlvmAsm.Proofs.Lowering.Stages
import LlvmAsm.Pipeline

/-!
# `Proofs.NumberExhaustion` — where the local numbers run out

A local written without a name takes the next implicit number (`Locals.define`). Once that number
is the largest 32-bit number, `maxLocalId`, one more unnamed local cannot be numbered, and checking
stops with `IrError.idsExhausted`. This module says where and when that happens:

* no other check reports it (`Proofs.Lowering.Failures`); numbering has a 32-bit counter of its own,
  which overflows only on a function with more anonymous locals than numbers
  (`Function.assignIds_exhausted`), and printing a checked module numbers its functions again
  without an overflow; so a text fails to print with it exactly when it reads and fails to lower with
  it (`formatModule_exhausted_iff`), and lowering fails with it only in the first pass over some
  function body or in numbering such a function (`lowerModule_exhausted`);
* after `%N` the next implicit number is `N + 1`, and each unnamed local that is numbered adds one,
  so over a body the next number never passes the largest number written plus one plus the count of
  unnamed locals (`numberBound`); the first pass runs out only once that bound reaches
  `maxLocalId` (`declareBody_exhausted`).

So a body that writes `%4294967290` and then defines five unnamed locals runs out, although it never
writes `%4294967294` or `%4294967295` (`implicit_numbers_run_out`).
-/

namespace LlvmAsm

namespace Ast

/-- The next implicit number a written name leaves: `N + 1` after `%N`, nothing otherwise. -/
def writtenNext : Option LocalName → Nat
  | some (.number k) => k + 1
  | _ => 0

/-- One past the largest number written among these names. -/
def writtenTop : List (Option LocalName) → Nat
  | [] => 0
  | n :: rest => max (writtenNext n) (writtenTop rest)

/-- How far implicit numbering can get over locals defined with these names: one past the largest
number written, and one more for each unnamed local. -/
def numberBound (names : List (Option LocalName)) : Nat := writtenTop names + names.count none

/-- The local an instruction defines, as written: none for a store, which defines none. -/
def Instruction.definedNames (i : Instruction) : List (Option LocalName) :=
  match i.kind with
  | .store .. => []
  | _ => [i.result]

/-- The local a terminator defines, as written: an invoke's result. -/
def Terminator.definedNames : Terminator → List (Option LocalName)
  | .invoke result .. => [result]
  | _ => []

/-- The locals a block defines, as written: its label, its results, its invoke's result. -/
def Block.definedNames (b : Block) : List (Option LocalName) :=
  b.label :: b.insts.flatMap Instruction.definedNames ++ b.term.definedNames

/-- The locals a function body defines, in the order the first pass defines them: the parameters,
then the locals of each block. -/
def definedNames (h : Header) (blocks : List Block) : List (Option LocalName) :=
  h.params.map (·.name) ++ blocks.flatMap Block.definedNames

theorem writtenTop_append (a b : List (Option LocalName)) :
    writtenTop (a ++ b) = max (writtenTop a) (writtenTop b) := by
  induction a with
  | nil => simp [writtenTop]
  | cons n a ih => simp only [List.cons_append, writtenTop, ih, Nat.max_assoc]

theorem writtenTop_mono {a b : List (Option LocalName)} (h : a.Sublist b) :
    writtenTop a ≤ writtenTop b := by
  induction h with
  | slnil => exact Nat.le_refl _
  | cons n _ ih => simp only [writtenTop]; omega
  | cons_cons n _ ih => simp only [writtenTop]; omega

theorem numberBound_mono {a b : List (Option LocalName)} (h : a.Sublist b) :
    numberBound a ≤ numberBound b :=
  Nat.add_le_add (writtenTop_mono h) (h.count_le none)

theorem numberBound_le_append (a b : List (Option LocalName)) : numberBound a ≤ numberBound (a ++ b) :=
  numberBound_mono (List.sublist_append_left a b)

theorem numberBound_append_none (pre : List (Option LocalName)) :
    numberBound (pre ++ [none]) = numberBound pre + 1 := by
  simp [numberBound, writtenTop_append, writtenTop, writtenNext]
  omega

theorem le_numberBound_append_number (pre : List (Option LocalName)) (k : Nat) :
    k + 1 ≤ numberBound (pre ++ [some (.number k)]) := by
  simp [numberBound, writtenTop_append, writtenTop, writtenNext]
  omega

end Ast

/-! ## The next implicit number during the first pass -/

/-- A step of the first pass keeps the next implicit number within `bound`, and stops for lack of
numbers only once `bound` has reached `maxLocalId`. -/
structure StaysWithin {α : Type} (x : Except IrError (α × Locals)) (bound : Nat) : Prop where
  ok : ∀ r, x = .ok r → r.2.nextId ≤ bound
  exhausted : x = .error .idsExhausted → maxLocalId ≤ bound

namespace StaysWithin

variable {α β γ : Type} {b b' : Nat}

theorem mono {x : Except IrError (α × Locals)} (h : StaysWithin x b) (hle : b ≤ b') :
    StaysWithin x b' :=
  ⟨fun r hr => Nat.le_trans (h.ok r hr) hle, fun he => Nat.le_trans (h.exhausted he) hle⟩

theorem of_ok {a : α} {l : Locals} (hl : l.nextId ≤ b) : StaysWithin (.ok (a, l)) b :=
  ⟨fun r hr => by cases hr; exact hl, fun he => nomatch he⟩

theorem of_pure {a : α} {l : Locals} (hl : l.nextId ≤ b) : StaysWithin (pure (a, l)) b := of_ok hl

/-- A step that fails only with ordinary failures, and keeps the next number where it was. -/
theorem of_ordinary {x : Except IrError (α × Locals)} (hx : Except.Raises IrError.Ordinary x)
    (hok : ∀ r, x = .ok r → r.2.nextId ≤ b) : StaysWithin x b :=
  ⟨hok, fun he => absurd rfl (hx _ he)⟩

theorem bind {x : Except IrError (α × Locals)} {f : α × Locals → Except IrError (β × Locals)}
    (hx : StaysWithin x b) (hf : ∀ r, x = .ok r → r.2.nextId ≤ b → StaysWithin (f r) b')
    (hle : b ≤ b') : StaysWithin (x >>= f) b' := by
  cases hrun : x with
  | error e =>
    refine ⟨fun r hr => (nomatch hr), fun he => ?_⟩
    cases he
    exact Nat.le_trans (hx.exhausted hrun) hle
  | ok r => exact hf r hrun (hx.ok r hrun)

/-- A check that fails only with ordinary failures, followed by a step of the first pass. -/
theorem bind_ordinary {x : Except IrError γ} {f : γ → Except IrError (β × Locals)}
    (hx : Except.Raises IrError.Ordinary x) (hf : ∀ a, x = .ok a → StaysWithin (f a) b) :
    StaysWithin (x >>= f) b := by
  cases hrun : x with
  | error e =>
    refine ⟨fun r hr => (nomatch hr), fun he => ?_⟩
    cases he
    exact absurd rfl (hx _ hrun)
  | ok a => exact hf a hrun

end StaysWithin

namespace Locals

variable {l : Locals} {pre : List (Option Ast.LocalName)}

theorem bind_nextId {key : Ast.LocalName} {ident : LocalIdent} {ty : Ty} {slot : Nat} {l' : Locals}
    (h : l.bind key ident ty = .ok (slot, l')) : l'.nextId = l.nextId := by
  unfold Locals.bind at h
  split at h
  · cases h
  · cases h
    rfl

theorem bind_ordinary (key : Ast.LocalName) (ident : LocalIdent) (ty : Ty) :
    Except.Raises IrError.Ordinary (l.bind key ident ty) := by
  unfold Locals.bind
  split
  · exact .error (by simp)
  · exact .ok _

/-- **The step lemma.** Defining a local leaves the next implicit number within the bound of the
    names defined so far, and runs out of numbers only when that bound has reached `maxLocalId`. -/
theorem define_staysWithin (hl : l.nextId ≤ Ast.numberBound pre) (name : Option Ast.LocalName)
    (ty : Ty) (numbered : Bool) :
    StaysWithin (l.define name ty numbered) (Ast.numberBound (pre ++ [name])) := by
  have hpre := Ast.numberBound_le_append pre [name]
  -- a named local keeps the next number, `%k` sets it to `k + 1`, an unnamed numbered local
  -- takes it and moves it on by one
  match name with
  | some (.name n) =>
    refine .of_ordinary (bind_ordinary _ _ _) fun r hr => ?_
    obtain ⟨slot, l'⟩ := r
    rw [bind_nextId hr]
    exact Nat.le_trans hl hpre
  | some (.number k) =>
    refine .of_ordinary (bind_ordinary _ _ _) fun r hr => ?_
    obtain ⟨slot, l'⟩ := r
    rw [bind_nextId hr]
    exact Nat.le_trans (Nat.min_le_left _ _) (Ast.le_numberBound_append_number pre k)
  | none =>
    have hnone := Ast.numberBound_append_none pre
    simp only [define]
    cases numbered with
    | true =>
      simp only [if_true]
      split
      · rename_i hmax
        exact ⟨fun r hr => (nomatch hr), fun _ => hmax ▸ Nat.le_trans hl hpre⟩
      · refine .of_ordinary (bind_ordinary _ _ _) fun r hr => ?_
        obtain ⟨slot, l'⟩ := r
        rw [bind_nextId hr]
        show l.nextId + 1 ≤ _
        omega
    | false =>
      refine .of_ok ?_
      exact Nat.le_trans hl hpre

/-- **Defining a local runs out of numbers** exactly when it is unnamed, takes part in numbering,
    and the next implicit number is already `maxLocalId`. -/
theorem define_eq_idsExhausted_iff {name : Option Ast.LocalName} {ty : Ty} {numbered : Bool} :
    l.define name ty numbered = .error .idsExhausted ↔
      name = none ∧ numbered = true ∧ l.nextId = maxLocalId := by
  match name with
  | some (.name n) =>
    refine ⟨fun h => absurd rfl (bind_ordinary _ _ _ _ h), ?_⟩
    rintro ⟨h, -⟩
    cases h
  | some (.number k) =>
    refine ⟨fun h => absurd rfl (bind_ordinary _ _ _ _ h), ?_⟩
    rintro ⟨h, -⟩
    cases h
  | none =>
    cases numbered with
    | false => simp [define, fresh]
    | true =>
      by_cases hmax : l.nextId = maxLocalId
      · simp [define, hmax]
      · simp only [define, if_true, hmax, if_false, and_false, iff_false]
        exact fun h => absurd rfl (bind_ordinary _ _ _ _ h)

/-- Parameters: one local each, as written. -/
theorem defineParams_staysWithin :
    ∀ (ps : List (Ast.Param × Ty)) {l : Locals} {pre : List (Option Ast.LocalName)},
      l.nextId ≤ Ast.numberBound pre →
      StaysWithin (l.defineParams ps) (Ast.numberBound (pre ++ ps.map (·.1.name)))
  | [], l, pre, hl => .of_ok (by simpa using hl)
  | (p, ty) :: rest, l, pre, hl => by
    have happ : pre ++ ((p, ty) :: rest).map (·.1.name) = (pre ++ [p.name]) ++ rest.map (·.1.name) := by
      simp
    rw [happ]
    exact .bind (define_staysWithin hl p.name ty true)
      (fun _ _ hl₁ => .bind (defineParams_staysWithin rest hl₁)
        (fun _ _ hl₂ => .of_pure hl₂) (Nat.le_refl _))
      (Ast.numberBound_le_append _ _)

/-- A result: one local, as written, numbered unless it is `void`. -/
theorem defineResult_staysWithin (hl : l.nextId ≤ Ast.numberBound pre) (name : Option Ast.LocalName)
    (ty : Ty) : StaysWithin (l.defineResult name ty) (Ast.numberBound (pre ++ [name])) := by
  unfold defineResult
  split
  · split
    · exact .of_ordinary (.error (by simp)) fun r hr => (nomatch hr)
    · exact define_staysWithin hl _ _ _
  · exact define_staysWithin hl _ _ _

end Locals

namespace Scope

variable (s : Scope) {l : Locals} {pre : List (Option Ast.LocalName)}

/-- Only a store has no result. -/
theorem resultType_eq_ok_none {k : Ast.InstKind} (h : s.resultType k = .ok none) :
    ∃ v p, k = .store v p := by
  cases k with
  | store v p => exact ⟨v, p, rfl⟩
  | binary _ lhs _ =>
    simp only [resultType, Except.map_eq_ok_iff] at h
    obtain ⟨_, -, h⟩ := h
    cases h
  | icmp => cases h
  | alloca elem =>
    simp only [resultType, Except.bind_eq_ok_iff] at h
    obtain ⟨_, -, h⟩ := h
    cases h
  | load =>
    simp only [resultType, Except.map_eq_ok_iff] at h
    obtain ⟨_, -, h⟩ := h
    cases h
  | phi =>
    simp only [resultType, Except.map_eq_ok_iff] at h
    obtain ⟨_, -, h⟩ := h
    cases h
  | call c =>
    simp only [resultType, Except.bind_eq_ok_iff] at h
    obtain ⟨_, -, h⟩ := h
    cases h

/-- An instruction: the local it defines, unless it is a store. -/
theorem declareInst_staysWithin (hl : l.nextId ≤ Ast.numberBound pre) (i : Ast.Instruction) :
    StaysWithin (s.declareInst l i) (Ast.numberBound (pre ++ i.definedNames)) := by
  unfold declareInst
  refine .bind_ordinary (s.resultType_ordinary _) fun rt hrt => ?_
  cases rt with
  | none =>
    obtain ⟨v, p, hk⟩ := s.resultType_eq_ok_none hrt
    have hnames : i.definedNames = [] := by simp [Ast.Instruction.definedNames, hk]
    rw [hnames, List.append_nil]
    dsimp only
    split
    · exact .of_ordinary (.throw (by simp)) fun r hr => (nomatch hr)
    · exact .of_pure hl
  | some ty =>
    have hnames : i.definedNames = [i.result] := by
      cases hk : i.kind with
      | store v p =>
        rw [hk] at hrt
        cases hrt
      | _ => simp [Ast.Instruction.definedNames, hk]
    rw [hnames]
    exact .bind (Locals.defineResult_staysWithin hl _ _) (fun _ _ hl₁ => .of_pure hl₁)
      (Nat.le_refl _)

theorem declareInsts_staysWithin :
    ∀ (insts : List Ast.Instruction) {l : Locals} {pre : List (Option Ast.LocalName)},
      l.nextId ≤ Ast.numberBound pre →
      StaysWithin (s.declareInsts l insts)
        (Ast.numberBound (pre ++ insts.flatMap Ast.Instruction.definedNames))
  | [], l, pre, hl => .of_ok (by simpa using hl)
  | i :: rest, l, pre, hl => by
    have happ : pre ++ (i :: rest).flatMap Ast.Instruction.definedNames =
        (pre ++ i.definedNames) ++ rest.flatMap Ast.Instruction.definedNames := by
      simp
    rw [happ]
    exact .bind (s.declareInst_staysWithin hl i)
      (fun _ _ hl₁ => .bind (declareInsts_staysWithin rest hl₁)
        (fun _ _ hl₂ => .of_pure hl₂) (Nat.le_refl _))
      (Ast.numberBound_le_append _ _)

/-- A terminator: an invoke's result. -/
theorem declareTerm_staysWithin (hl : l.nextId ≤ Ast.numberBound pre) (t : Ast.Terminator) :
    StaysWithin (s.declareTerm l t) (Ast.numberBound (pre ++ t.definedNames)) := by
  cases t with
  | invoke result c normal unwind =>
    exact .bind_ordinary (s.callSignature_ordinary c) fun sig _ =>
      .bind (Locals.defineResult_staysWithin hl result sig.ret) (fun _ _ hl₁ => .of_pure hl₁)
        (Nat.le_refl _)
  | _ => exact .of_pure (by simpa [Ast.Terminator.definedNames] using hl)

/-- A block: its label, its results, its invoke's result. -/
theorem declareBlock_staysWithin (hl : l.nextId ≤ Ast.numberBound pre) (b : Ast.Block) :
    StaysWithin (s.declareBlock l b) (Ast.numberBound (pre ++ b.definedNames)) := by
  have happ : pre ++ b.definedNames =
      ((pre ++ [b.label]) ++ b.insts.flatMap Ast.Instruction.definedNames) ++ b.term.definedNames := by
    simp [Ast.Block.definedNames]
  rw [happ]
  exact .bind (Locals.define_staysWithin hl b.label .label true)
    (fun _ _ hl₁ => .bind (s.declareInsts_staysWithin b.insts hl₁)
      (fun _ _ hl₂ => .bind (s.declareTerm_staysWithin hl₂ b.term)
        (fun _ _ hl₃ => .of_pure hl₃) (Nat.le_refl _))
      (Ast.numberBound_le_append _ _))
    (Nat.le_trans (Ast.numberBound_le_append _ _) (Ast.numberBound_le_append _ _))

theorem declareBlocks_staysWithin :
    ∀ (blocks : List Ast.Block) {l : Locals} {pre : List (Option Ast.LocalName)},
      l.nextId ≤ Ast.numberBound pre →
      StaysWithin (s.declareBlocks l blocks) (Ast.numberBound (pre ++ blocks.flatMap Ast.Block.definedNames))
  | [], l, pre, hl => .of_ok (by simpa using hl)
  | b :: rest, l, pre, hl => by
    have happ : pre ++ (b :: rest).flatMap Ast.Block.definedNames =
        (pre ++ b.definedNames) ++ rest.flatMap Ast.Block.definedNames := by
      simp
    rw [happ]
    exact .bind (s.declareBlock_staysWithin hl b)
      (fun _ _ hl₁ => .bind (declareBlocks_staysWithin rest hl₁)
        (fun _ _ hl₂ => .of_pure hl₂) (Nat.le_refl _))
      (Ast.numberBound_le_append _ _)

/-- The parameters the first pass defines, those the signature has a type for, come first among
the header's. -/
theorem zip_names_sublist :
    ∀ (ps : List Ast.Param) (tys : List Ty), ((ps.zip tys).map (·.1.name)).Sublist (ps.map (·.name))
  | [], _ => by simp
  | _ :: _, [] => by simp
  | p :: ps, _ :: tys => by simpa using (zip_names_sublist ps tys).cons_cons p.name

/-- **The first pass runs out of numbers only past its bound.** A body whose first pass stops for
    lack of local numbers defines locals whose largest written number plus one, plus their count of
    unnamed ones, reaches `maxLocalId`. -/
theorem declareBody_exhausted {h : Ast.Header} {sig : FuncSig} {blocks : List Ast.Block}
    (hd : s.declareBody h sig blocks = .error .idsExhausted) :
    maxLocalId ≤ Ast.numberBound (Ast.definedNames h blocks) := by
  let params := (h.params.zip sig.params).map (·.1.name)
  have hparams := @Locals.defineParams_staysWithin (h.params.zip sig.params) { func := h.name } []
    (Nat.zero_le _)
  have hle : Ast.numberBound (params ++ blocks.flatMap Ast.Block.definedNames) ≤
      Ast.numberBound (Ast.definedNames h blocks) :=
    Ast.numberBound_mono ((zip_names_sublist h.params sig.params).append_right _)
  unfold declareBody at hd
  -- the failure comes from the parameters or from the blocks
  cases hrun : Locals.defineParams { func := h.name } (h.params.zip sig.params) with
  | error e =>
    rw [hrun] at hd
    cases hd
    exact Nat.le_trans (hparams.exhausted hrun)
      (Nat.le_trans (Ast.numberBound_le_append _ _) hle)
  | ok r =>
    obtain ⟨slots, l₁⟩ := r
    rw [hrun] at hd
    simp only [bind, Except.bind] at hd
    have hblocks := s.declareBlocks_staysWithin blocks (hparams.ok _ hrun)
    cases hrun' : s.declareBlocks l₁ blocks with
    | error e =>
      rw [hrun'] at hd
      cases hd
      exact Nat.le_trans (hblocks.exhausted hrun') (by simpa using hle)
    | ok r' =>
      rw [hrun'] at hd
      cases hd

/-- **Checking a function runs out of numbers only in the first pass.** Every failure of checking
    a function is ordinary, or comes from the first pass over its body. -/
theorem lowerFunctionIn_raises (f : Ast.Function) :
    (s.lowerFunctionIn f).Raises fun e => e.Ordinary ∨
      ∃ body, f.body = some body ∧ ∃ sig, s.declareBody f.header sig body.blocks = .error e := by
  unfold lowerFunctionIn
  have hG := LowerM.Raises.ordinary_closed
  refine .bind ((lowerHeader_closed hG s _).mono fun e he => .inl he) fun func => ?_
  split
  · exact .pure _
  · rename_i body hbody
    refine .bind (.ofExcept ((Except.Raises.self _).mono fun e he => .inr ⟨body, hbody, _, he⟩))
      fun r => ?_
    exact .bind (.mapM fun _ _ => (lowerBlock_closed hG s _ _ _ _).mono fun e he => .inl he)
      fun _ => .bind (.mapM fun _ _ => .bind ((lowerTypedValue_closed hG s _ _).mono
        fun e he => .inl he) fun _ => .pure _) fun _ => .pure _

/-- Attaching the function's name keeps running out of numbers as it is. -/
theorem lowerFunction_exhausted {f : Ast.Function} {q : FixupQueue}
    (h : ((s.lowerFunction f).run.run q).1 = .error .idsExhausted) :
    ∃ body, f.body = some body ∧ ∃ sig, s.declareBody f.header sig body.blocks = .error .idsExhausted := by
  unfold lowerFunction at h
  rw [LowerM.run_tryCatch] at h
  rcases hrun : (s.lowerFunctionIn f).run.run q with ⟨r, q'⟩
  rw [hrun] at h
  cases r with
  | ok a => cases h
  | error e =>
    -- the reported failure is the function's own failure under its name
    have hwithin : e.within f.header.name = .idsExhausted := by
      simp only [MonadExcept.throw, throwThe, MonadExceptOf.throw] at h
      exact (Except.error.inj h).symm ▸ rfl
    have he : ¬ e.Ordinary := fun he =>
      (IrError.ordinary_within f.header.name).mpr he hwithin
    rcases s.lowerFunctionIn_raises f q e (by rw [hrun]) with hord | ⟨body, hbody, sig, hd⟩
    · exact absurd hord he
    · refine ⟨body, hbody, sig, ?_⟩
      rw [hd, Classical.not_not.mp he]

/-- Checking the items runs out of numbers only in the first pass over some function body. -/
theorem lowerItems_exhausted {m : Ast.Module} {q : FixupQueue}
    (h : ((s.lowerItems m).run.run q).1 = .error .idsExhausted) :
    ∃ f ∈ m.funcs, ∃ body, f.body = some body ∧
      ∃ sig, s.declareBody f.header sig body.blocks = .error .idsExhausted := by
  have hraises : (s.lowerItems m).Raises fun e => e.Ordinary ∨
      ∃ f ∈ m.funcs, ∃ body, f.body = some body ∧
        ∃ sig, s.declareBody f.header sig body.blocks = .error .idsExhausted := by
    refine .bind (.mapM fun g _ =>
      (lowerGlobal_closed LowerM.Raises.ordinary_closed s g).mono fun e he => .inl he) fun _ => ?_
    refine .bind (.mapM fun f hf => ?_) fun _ => .pure _
    intro q' e he
    by_cases hord : e.Ordinary
    · exact .inl hord
    · rw [Classical.not_not.mp hord] at he
      exact .inr ⟨f, hf, s.lowerFunction_exhausted he⟩
  rcases hraises q _ h with hord | hfirst
  · exact absurd rfl hord
  · exact hfirst

end Scope

/-- **Lowering runs out of numbers only in the first pass over some function body**, and that body
    defines locals whose bound reaches `maxLocalId`, **or in numbering a checked function** with more
    anonymous locals than 32-bit numbers. -/
theorem lowerModule_exhausted {m : Ast.Module} (h : lowerModule m = .error .idsExhausted) :
    (∃ f ∈ m.funcs, ∃ body, f.body = some body ∧
      (∃ (s : Scope) (sig : FuncSig), s.declareBody f.header sig body.blocks = .error .idsExhausted) ∧
      maxLocalId ≤ Ast.numberBound (Ast.definedNames f.header body.blocks)) ∨
    ∃ s globals funcs queue, Scope.ofModule m = .ok s ∧
      (s.lowerItems m).run.run {} = (.ok (globals, funcs), queue) ∧
      ∃ F ∈ funcs, maxLocalId < (Function.anonSlots F.locals F.visitOrder).length := by
  unfold lowerModule at h
  cases hs : Scope.ofModule m with
  | error e =>
    rw [hs] at h
    cases h
    exact absurd rfl (Scope.ofModule_ordinary m _ hs)
  | ok s =>
    rw [hs] at h
    simp only [bind, Except.bind] at h
    rcases hrun : (s.lowerItems m).run.run {} with ⟨result, queue⟩
    rw [hrun] at h
    cases result with
    | error e =>
      cases h
      obtain ⟨f, hf, body, hbody, sig, hd⟩ := s.lowerItems_exhausted (q := {}) (by rw [hrun])
      exact .inl ⟨f, hf, body, hbody, ⟨s, sig, hd⟩, s.declareBody_exhausted hd⟩
    | ok items =>
      obtain ⟨globals, funcs⟩ := items
      dsimp only at h
      split at h
      · rename_i err hnum
        cases h
        -- numbering overflowed in one of the checked functions
        obtain ⟨F, hF, hFe⟩ := Module.assignIds_eq_error hnum
        exact .inr ⟨s, globals, funcs, queue, rfl, hrun, F, hF, Function.assignIds_exhausted hFe⟩
      · split at h
        · -- block addresses report ordinary failures only
          rename_i err hdrain
          cases h
          exact absurd rfl (FixupQueue.drain_ordinary _ _ _ hdrain)
        · cases h

/-- Printing a checked module numbers its functions again, which never overflows. -/
theorem lowerModule_print_ordinary {m : Ast.Module} {M : Module} (h : lowerModule m = .ok M) :
    Except.Raises IrError.Ordinary M.print := by
  obtain ⟨s, globals, funcs, queue, hs, hitems⟩ := lowerModule_stages h
  have hnum := lowerModule_funcs hs hitems h
  refine .bind (.mapM fun F' hF' => ?_) fun _ => .pure _
  obtain ⟨F, -, hFF'⟩ := forall₂_exists_left hnum F' hF'
  have hre := Function.assignIds_renumber_ne_exhausted hFF'
  unfold Function.print
  dsimp only
  split
  · exact .ok _
  · exact .bind (fun e he heq => hre (heq ▸ he)) fun _ => .pure _

/-- **A text fails with exhausted numbers exactly when lowering its module does**: reading and
    printing never report it. -/
theorem formatModule_exhausted_iff (text : String) :
    formatModule text = .error .idsExhausted ↔
      ∃ m, Ast.parseModule text = .ok m ∧ lowerModule m = .error .idsExhausted := by
  unfold formatModule
  cases hp : Ast.parseModule text with
  | error e =>
    have he : e ≠ .idsExhausted := Ast.parseModule_ordinary text e hp
    simp only [bind, Except.bind, Except.error.injEq, he, false_iff]
    rintro ⟨m, hm, -⟩
    cases hm
  | ok m =>
    simp only [bind, Except.bind, Except.ok.injEq, exists_eq_left']
    cases hl : lowerModule m with
    | error e => simp
    | ok M =>
      have hprint : M.print ≠ .error .idsExhausted := fun h => lowerModule_print_ordinary hl _ h rfl
      simpa using hprint

/-! ## Where and when the numbers run out -/

/-- **Local numbers run out only past the bound of a body, or past the 32-bit numbers.** A text
    fails with exhausted numbers exactly when it reads, its module fails to lower with them, and
    then either the first pass over some function body fails with them, that body's largest
    written number plus one, plus its count of unnamed locals, reaching `maxLocalId`, or the module's
    items check and one of its checked functions has more anonymous locals than 32-bit numbers. No
    other step of reading, checking, numbering or printing reports it: within the first pass,
    defining a local runs out exactly when it is unnamed and numbered while the next implicit number
    is `maxLocalId`; numbering a function overflows only past the last number; and formatting a
    calling convention, the one text that could fail to format, never fails. -/
theorem ids_exhausted_only_past_bound (text : String) :
    (formatModule text = .error .idsExhausted ↔
      ∃ m, Ast.parseModule text = .ok m ∧ lowerModule m = .error .idsExhausted ∧
        ((∃ f ∈ m.funcs, ∃ body, f.body = some body ∧
          (∃ (s : Scope) (sig : FuncSig), s.declareBody f.header sig body.blocks = .error .idsExhausted) ∧
          maxLocalId ≤ Ast.numberBound (Ast.definedNames f.header body.blocks)) ∨
        ∃ s globals funcs queue, Scope.ofModule m = .ok s ∧
          (s.lowerItems m).run.run {} = (.ok (globals, funcs), queue) ∧
          ∃ F ∈ funcs, maxLocalId < (Function.anonSlots F.locals F.visitOrder).length)) ∧
    (∀ (l : Locals) (name : Option Ast.LocalName) (ty : Ty) (numbered : Bool),
      l.define name ty numbered = .error .idsExhausted ↔
        name = none ∧ numbered = true ∧ l.nextId = maxLocalId) ∧
    (∀ F : Function, F.assignIds = .error .idsExhausted →
      maxLocalId < (Function.anonSlots F.locals F.visitOrder).length) ∧
    ∀ cc : CallingConv, ∃ text, cc.display? = some text := by
  refine ⟨⟨fun h => ?_, fun h => ?_⟩, fun _ _ _ _ => Locals.define_eq_idsExhausted_iff,
    fun _ h => Function.assignIds_exhausted h,
    fun cc => Option.isSome_iff_exists.mp (CallingConv.display?_isSome cc)⟩
  · obtain ⟨m, hp, hl⟩ := (formatModule_exhausted_iff text).mp h
    exact ⟨m, hp, hl, lowerModule_exhausted hl⟩
  · obtain ⟨m, hp, hl, -⟩ := h
    exact (formatModule_exhausted_iff text).mpr ⟨m, hp, hl⟩

/-- After `%4294967295` no unnamed local can be numbered. -/
theorem top_number_then_unnamed_exhausted :
    ∃ m, Ast.parseModule "define void @f() \x7b\n  %4294967295 = alloca i32\n  alloca i32\n  ret void\n\x7d\n" = .ok m ∧
      lowerModule m = .error .idsExhausted ∧
      ((∃ f ∈ m.funcs, ∃ body, f.body = some body ∧
        (∃ (s : Scope) (sig : FuncSig), s.declareBody f.header sig body.blocks = .error .idsExhausted) ∧
        maxLocalId ≤ Ast.numberBound (Ast.definedNames f.header body.blocks)) ∨
      ∃ s globals funcs queue, Scope.ofModule m = .ok s ∧
        (s.lowerItems m).run.run {} = (.ok (globals, funcs), queue) ∧
        ∃ F ∈ funcs, maxLocalId < (Function.anonSlots F.locals F.visitOrder).length) := by
  have h : formatModule "define void @f() \x7b\n  %4294967295 = alloca i32\n  alloca i32\n  ret void\n\x7d\n" =
      .error .idsExhausted := by
    decide +kernel
  exact (ids_exhausted_only_past_bound _).1.mp h

/-- **Numbers run out without `%4294967294` or `%4294967295`.** After `%4294967290` the unnamed
    locals take `4294967291` to `4294967294`, and the fifth finds the next number at
    `maxLocalId`. -/
theorem implicit_numbers_run_out :
    formatModule "define void @f() \x7b\n  %4294967290 = alloca i32\n  alloca i32\n  alloca i32\n  alloca i32\n  alloca i32\n  alloca i32\n  ret void\n\x7d\n" =
      .error .idsExhausted := by
  decide +kernel

end LlvmAsm
