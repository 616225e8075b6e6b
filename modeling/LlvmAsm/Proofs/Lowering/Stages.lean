import LlvmAsm.Proofs.Numbering
import LlvmAsm.Proofs.Lowering.Run

/-!
# `Proofs.Lowering.Stages` — the stages of checking a module

`lowerModule` checks the scope of a module, then its items (the globals' initializers and the
functions, in `LowerM`), then numbers every function definition and last drains the queue of block
addresses the items left. This module takes a run apart at those boundaries:

* once the scope and the items are checked, the result is the numbering of the module they build,
  followed by the drain (`lowerModule_of_items`);
* the items are the checked functions, one for each function of the source
  (`Scope.lowerItems_funcs`);
* numbering a module numbers each of its functions: it succeeds pointwise, and fails with the
  failure of one of them (`Module.assignIds_funcs`, `Module.assignIds_eq_error`);
* numbering fails only with an out-of-sequence local number, and the drain only with an unknown
  function or a dangling block, so the two stages' failures never mix.
-/

namespace LlvmAsm

/-! ## Numbering a module -/

namespace Function

/-- Numbering a definition is the walk over its visiting order from `0`. -/
theorem assignIds_of_blocks {F : Function} (hb : F.isDeclaration = false) :
    F.assignIds = (numberSlots F.name F.visitOrder 0 F.locals >>= fun t =>
      pure { F with locals := t }) := by
  unfold assignIds
  rw [hb]
  rfl

/-- Numbering a function fails only with an out-of-sequence local number or an overflow. -/
theorem assignIds_error {F : Function} {e : IrError} (h : F.assignIds = .error e) :
    (∃ expected got, e = .invalidLocalId F.name expected got) ∨ e = .idsExhausted := by
  unfold assignIds at h
  split at h
  · cases h
  · cases hn : numberSlots F.name F.visitOrder 0 F.locals with
    | ok t => rw [hn] at h; cases h
    | error e' =>
      rw [hn] at h
      cases h
      exact numberSlots_error hn

/-- **Numbering a function overflows only past the last number**: it has more anonymous locals to
    visit than there are 32-bit numbers below `maxLocalId`. -/
theorem assignIds_exhausted {F : Function} (h : F.assignIds = .error .idsExhausted) :
    maxLocalId < (anonSlots F.locals F.visitOrder).length := by
  cases hd : F.isDeclaration
  · rw [assignIds_of_blocks hd] at h
    cases hn : numberSlots F.name F.visitOrder 0 F.locals with
    | ok t => rw [hn] at h; cases h
    | error e =>
      rw [hn] at h
      cases h
      simpa using numberSlots_exhausted hn
  · simp [assignIds, hd] at h

/-- **A numbered function is numbered again without an overflow.** -/
theorem assignIds_renumber_ne_exhausted {F F' : Function} (h : F.assignIds = .ok F') :
    F'.assignIds ≠ .error .idsExhausted := by
  intro h'
  have hover := assignIds_exhausted h'
  cases hd : F.isDeclaration
  · rw [assignIds_of_blocks hd] at h
    cases hn : numberSlots F.name F.visitOrder 0 F.locals with
    | error e => rw [hn] at h; cases h
    | ok t =>
      rw [hn] at h
      cases h
      -- the numbered table has the anonymous locals of the first, and those fit
      have hfits := numberSlots_fits hn (Nat.zero_le _)
      rw [← anonSlots_numberSlots hn, Nat.zero_add] at hfits
      exact absurd hfits (Nat.not_le.mpr hover)
  · simp only [assignIds, hd, if_true] at h
    cases h
    simp [assignIds, hd] at h'

end Function

namespace Module

variable {M M' : Module}

/-- **Numbering a module** numbers each of its functions, in order. -/
theorem assignIds_funcs (h : M.assignIds = .ok M') :
    List.Forall₂ (fun F F' => F.assignIds = .ok F') M.funcs M'.funcs := by
  unfold assignIds at h
  obtain ⟨funcs, hfuncs, hM⟩ := Except.bind_eq_ok_iff.mp h
  cases hM
  exact Except.mapM_eq_ok_iff.mp hfuncs

/-- A module's numbering fails with the failure of one of its functions. -/
theorem assignIds_eq_error {e : IrError} (h : M.assignIds = .error e) :
    ∃ F ∈ M.funcs, F.assignIds = .error e := by
  unfold assignIds at h
  cases hfuncs : M.funcs.mapM Function.assignIds with
  | ok funcs => rw [hfuncs] at h; cases h
  | error e' =>
    rw [hfuncs] at h
    cases h
    exact Except.mapM_eq_error hfuncs

/-- A module with a function whose numbering fails fails to be numbered. -/
theorem assignIds_error_of_mem {F : Function} {e : IrError} (hF : F ∈ M.funcs)
    (he : F.assignIds = .error e) : ∃ e', M.assignIds = .error e' := by
  obtain ⟨e', he'⟩ := Except.mapM_error_of_mem hF he
  exact ⟨e', by unfold assignIds; rw [he']; rfl⟩

end Module

/-! ## Draining the block addresses -/

/-- A block address fails to resolve only for an unknown function or a block it does not have. -/
theorem BlockRef.resolve_error {M : Module} {r : BlockRef} {e : IrError}
    (h : r.resolve M = .error e) :
    (∃ name, e = .unresolvedSymbol .function name) ∨ ∃ func block, e = .danglingBlock func block := by
  unfold BlockRef.resolve at h
  split at h
  · cases h
    exact .inl ⟨_, rfl⟩
  · split at h
    · cases h
    · cases h
      exact .inr ⟨_, _, rfl⟩

/-- Draining fails only for an unknown function or a dangling block. -/
theorem FixupQueue.drain_error {q : FixupQueue} {M : Module} {e : IrError}
    (h : (q.drain M).1 = .error e) :
    (∃ name, e = .unresolvedSymbol .function name) ∨ ∃ func block, e = .danglingBlock func block := by
  have hforM : q.pending.forM (BlockRef.resolve M) = .error e := by
    unfold FixupQueue.drain at h
    cases hf : q.pending.forM (BlockRef.resolve M) with
    | ok u => rw [hf] at h; cases h
    | error e' => rw [hf] at h; cases h; rfl
  obtain ⟨r, -, hr⟩ := Except.forM_eq_error hforM
  exact BlockRef.resolve_error hr

/-! ## A run of `lowerModule` -/

namespace Scope

variable {s : Scope} {m : Ast.Module} {q q' : FixupQueue} {globals : List Global}
  {funcs : List Function}

/-- **The checked items** hold one checked function for each function of the module, in order. -/
theorem lowerItems_funcs (h : (s.lowerItems m).run.run q = (.ok (globals, funcs), q')) :
    List.Forall₂ (fun f F => ∃ q₁ q₂, (s.lowerFunction f).run.run q₁ = (.ok F, q₂)) m.funcs funcs := by
  unfold lowerItems at h
  obtain ⟨globals', q₁, -, h⟩ := LowerM.bind_ok h
  obtain ⟨funcs', q₂, hfuncs, h⟩ := LowerM.bind_ok h
  rw [LowerM.run_pure] at h
  cases h
  exact LowerM.mapM_forall₂ hfuncs

end Scope

variable {s : Scope} {m : Ast.Module} {globals : List Global} {funcs : List Function}
  {queue : FixupQueue}

/-- **A run past the items.** Once the scope and the items of a module are checked, what is left of
    `lowerModule` is numbering the module they make, then draining the queue the items left. -/
theorem lowerModule_of_items (hs : Scope.ofModule m = .ok s)
    (hitems : (s.lowerItems m).run.run {} = (.ok (globals, funcs), queue)) :
    lowerModule m =
      (({ sourceFilename := m.sourceFilename, dataLayout := m.dataLayout,
          targetTriple := m.targetTriple, types := s.types, comdats := m.comdats, globals,
          funcs } : Module).assignIds >>= fun M =>
        (queue.drain M).1 >>= fun _ => pure { M with attrGroups := m.attrGroups }) := by
  simp only [lowerModule, hs, bind, Except.bind]
  rw [hitems]

/-- **A successful run** checked the scope and the items of the module. -/
theorem lowerModule_stages {M : Module} (h : lowerModule m = .ok M) :
    ∃ s globals funcs queue, Scope.ofModule m = .ok s ∧
      (s.lowerItems m).run.run {} = (.ok (globals, funcs), queue) := by
  cases hs : Scope.ofModule m with
  | error e =>
    simp only [lowerModule, hs, bind, Except.bind] at h
    cases h
  | ok s =>
    rcases hitems : (s.lowerItems m).run.run {} with ⟨_ | ⟨globals, funcs⟩, queue⟩
    · simp only [lowerModule, hs, bind, Except.bind, hitems] at h
      cases h
    · exact ⟨s, globals, funcs, queue, rfl, hitems⟩

/-- A checked module's functions are the numbered checked functions. -/
theorem lowerModule_funcs (hs : Scope.ofModule m = .ok s)
    (hitems : (s.lowerItems m).run.run {} = (.ok (globals, funcs), queue)) {M : Module}
    (h : lowerModule m = .ok M) : List.Forall₂ (fun F F' => F.assignIds = .ok F') funcs M.funcs := by
  rw [lowerModule_of_items hs hitems] at h
  obtain ⟨M₁, hM₁, h⟩ := Except.bind_eq_ok_iff.mp h
  obtain ⟨_, -, h⟩ := Except.bind_eq_ok_iff.mp h
  cases h
  exact Module.assignIds_funcs hM₁

/-- **Past the items, `lowerModule` reports an out-of-sequence local number** exactly when the
    numbering of one of the checked functions fails, when no function has more anonymous locals
    than 32-bit numbers. -/
theorem lowerModule_invalidLocalId_iff (hs : Scope.ofModule m = .ok s)
    (hitems : (s.lowerItems m).run.run {} = (.ok (globals, funcs), queue))
    (hfit : ∀ F ∈ funcs, (Function.anonSlots F.locals F.visitOrder).length ≤ maxLocalId) :
    (∃ func expected got, lowerModule m = .error (.invalidLocalId func expected got)) ↔
      ∃ F ∈ funcs, ∃ e, F.assignIds = .error e := by
  rw [lowerModule_of_items hs hitems]
  generalize hM₀ :
    ({ sourceFilename := m.sourceFilename, dataLayout := m.dataLayout,
       targetTriple := m.targetTriple, types := s.types, comdats := m.comdats, globals,
       funcs } : Module) = M₀
  have hfuncs : M₀.funcs = funcs := by rw [← hM₀]
  constructor
  · rintro ⟨func, expected, got, h⟩
    cases hM : M₀.assignIds with
    | error e =>
      obtain ⟨F, hF, he⟩ := Module.assignIds_eq_error hM
      exact ⟨F, hfuncs ▸ hF, e, he⟩
    | ok M₁ =>
      -- past numbering, only the drain can fail, and never with a local number
      rw [hM] at h
      cases hd : (queue.drain M₁).1 with
      | error e =>
        simp only [bind, Except.bind, hd, Except.error.injEq] at h
        rcases FixupQueue.drain_error hd with ⟨_, he⟩ | ⟨_, _, he⟩ <;> rw [he] at h <;> cases h
      | ok n =>
        simp only [bind, Except.bind, hd, pure, Except.pure] at h
        cases h
  · rintro ⟨F, hF, e, he⟩
    obtain ⟨e', he'⟩ := Module.assignIds_error_of_mem (hfuncs ▸ hF) he
    obtain ⟨F', hF'm, hF'⟩ := Module.assignIds_eq_error he'
    rcases Function.assignIds_error hF' with ⟨expected, got, rfl⟩ | rfl
    · exact ⟨F'.name, expected, got, by rw [he']; rfl⟩
    · -- an overflow needs more anonymous locals than there are numbers
      have hover := Function.assignIds_exhausted hF'
      have := hfit F' (hfuncs ▸ hF'm)
      omega

end LlvmAsm
