import LlvmAsm.Proofs.LocalNumbering

/-!
# `Proofs.StableNumbering` — numbering is dense, checked and idempotent

`Function.assignIds` walks the anonymous locals of a definition in visiting order (the
parameters, then per block its label, its numbered results and its invoke's result) and gives the
`k`-th of them the number `k`, refusing one that already carries another number than `0` (which
means "not yet numbered"). This module states what that walk does on a whole function, when it
visits each local of the table once, as a checked function does (`Function.VisitsDistinct`), and
has no more anonymous locals than its 32-bit counter has numbers:

* it succeeds exactly when every anonymous local is unnumbered or already numbered with its
  position, and then numbers each with its position and leaves every other local as it was;
* otherwise it fails at the first local that is neither, reporting its position and its number,
  once the walk up to it has numbered the locals before it;
* numbering a numbered function succeeds and changes nothing.

Each part needs the visits to be distinct: an identity visited twice is numbered at each visit and
keeps the later number (`sharedParams_numbered_one`).

Printing a function numbers it first, so printing a module that `lowerModule` returned never fails
and, since the numbering it does changes nothing, printing it again gives the same text
(`assignIds_dense_idempotent`).
-/

namespace LlvmAsm

namespace Function

/-- The anonymous locals numbering visits, in visiting order: `l₀, l₁, …`. -/
def anonVisits (f : Function) : List Nat := anonSlots f.locals f.visitOrder

/-- Numbering visits each local of the table at most once: no two visited positions share a slot,
and every visited slot is in the table. A checked function visits its locals so. -/
structure VisitsDistinct (f : Function) : Prop where
  nodup : f.visitOrder.Nodup
  lt_size : ∀ s ∈ f.visitOrder, s < f.locals.size

variable {f f' : Function}

/-- A function without blocks is left as it is. -/
theorem assignIds_of_blocks_nil (h : f.blocks = []) : f.assignIds = .ok f := by
  simp [assignIds, isDeclaration, h]

/-- Numbering changes the table of identities only. -/
theorem assignIds_eq_ok_locals (h : f.assignIds = .ok f') : f' = { f with locals := f'.locals } := by
  by_cases hb : f.blocks = []
  · rw [assignIds_of_blocks_nil hb] at h
    cases h
    rfl
  · obtain ⟨t, -, rfl⟩ := (assignIds_eq_ok_iff hb).mp h
    rfl

theorem visitOrder_eq_of_assignIds (h : f.assignIds = .ok f') : f'.visitOrder = f.visitOrder := by
  rw [assignIds_eq_ok_locals h]
  rfl

section Distinct

variable (hv : f.VisitsDistinct) (hb : f.blocks ≠ [])
include hv hb

/-- **When numbering succeeds**: exactly when each anonymous local is unnumbered or already
    carries the number of its position. -/
theorem assignIds_ok_iff (hfit : f.anonVisits.length ≤ maxLocalId) :
    (∃ f', f.assignIds = .ok f') ↔ ∀ k s, f.anonVisits[k]? = some s →
      f.locals.ident s = .anon 0 ∨ f.locals.ident s = .anon k := by
  have hwalk := @numberSlots_ok_iff f.name _ 0 f.locals hv.nodup (by rw [Nat.zero_add]; exact hfit)
  simp only [Nat.zero_add] at hwalk
  constructor
  · rintro ⟨f', hf'⟩
    obtain ⟨t, ht, -⟩ := (assignIds_eq_ok_iff hb).mp hf'
    exact hwalk.mp ⟨t, ht⟩
  · intro h
    obtain ⟨t, ht⟩ := hwalk.mpr h
    exact ⟨_, (assignIds_eq_ok_iff hb).mpr ⟨t, ht, rfl⟩⟩

/-- **What numbering leaves**: the `k`-th anonymous local numbered `k`, every other local as it
    was. -/
theorem assignIds_numbers (h : f.assignIds = .ok f') :
    (∀ k s, f.anonVisits[k]? = some s → f'.locals.ident s = .anon k) ∧
      ∀ s, s ∉ f.anonVisits → f'.locals.ident s = f.locals.ident s := by
  obtain ⟨t, ht, rfl⟩ := (assignIds_eq_ok_iff hb).mp h
  have hident := numberSlots_ident hv.nodup hv.lt_size ht
  have hLnd : f.anonVisits.Nodup := (anonSlots_sublist _ _).nodup hv.nodup
  refine ⟨fun k s hk => ?_, fun s hs => ?_⟩
  · rw [hident, show (anonSlots f.locals f.visitOrder) = f.anonVisits from rfl,
      idxOf?_eq_some_of_getElem? hLnd hk]
    simp
  · rw [hident, show (anonSlots f.locals f.visitOrder) = f.anonVisits from rfl,
      List.idxOf?_eq_none_iff.mpr hs]
    rfl

/-- **Where numbering fails**: at the first anonymous local that is neither unnumbered nor numbered
    with its position, reporting the function, the position and the number found. -/
theorem assignIds_eq_error_iff_first (hfit : f.anonVisits.length ≤ maxLocalId) {e : IrError} :
    f.assignIds = .error e ↔
      ∃ k s id, f.anonVisits[k]? = some s ∧ f.locals.ident s = .anon id ∧ id ≠ 0 ∧ id ≠ k ∧
        (∀ j s', j < k → f.anonVisits[j]? = some s' →
          f.locals.ident s' = .anon 0 ∨ f.locals.ident s' = .anon j) ∧
        e = .invalidLocalId f.name k id := by
  rw [assignIds_eq_error_iff hb, numberSlots_eq_error_iff hv.nodup (by rw [Nat.zero_add]; exact hfit)]
  simp only [Nat.zero_add]
  rfl

end Distinct

/-- **The walk up to a failure** numbers the locals before the one it fails at, and no other. -/
theorem assignIds_walk_before (hv : f.VisitsDistinct) (hfit : f.anonVisits.length ≤ maxLocalId)
    {k s : Nat} (hk : f.anonVisits[k]? = some s)
    (hgood : ∀ j s', j < k → f.anonVisits[j]? = some s' →
      f.locals.ident s' = .anon 0 ∨ f.locals.ident s' = .anon j) :
    ∃ pre post t, f.visitOrder = pre ++ s :: post ∧ numberSlots f.name pre 0 f.locals = .ok t ∧
      (∀ j s', j < k → f.anonVisits[j]? = some s' → t.ident s' = .anon j) ∧
      ∀ x, x ∉ f.anonVisits.take k → t.ident x = f.locals.ident x := by
  obtain ⟨pre, post, t, hsplit, ht, hbefore, hother⟩ :=
    @numberSlots_before f.name _ 0 _ _ _ hv.nodup hv.lt_size
      (by have := (List.getElem?_eq_some_iff.mp hk).1; omega) hk
      (by simpa only [Nat.zero_add, anonVisits] using hgood)
  exact ⟨pre, post, t, hsplit, ht, by simpa only [Nat.zero_add, anonVisits] using hbefore, hother⟩

/-- A numbered function still visits each local once. -/
theorem VisitsDistinct.of_assignIds (hv : f.VisitsDistinct) (h : f.assignIds = .ok f') :
    f'.VisitsDistinct := by
  have hvis := visitOrder_eq_of_assignIds h
  by_cases hb : f.blocks = []
  · rw [assignIds_of_blocks_nil hb] at h
    cases h
    exact hv
  · obtain ⟨t, ht, rfl⟩ := (assignIds_eq_ok_iff hb).mp h
    exact ⟨hv.nodup, fun s hs => (numberSlots_size ht).symm ▸ hv.lt_size s hs⟩

/-- **Numbering is idempotent**: numbering a numbered function succeeds and changes nothing. -/
theorem assignIds_idempotent (hv : f.VisitsDistinct) (h : f.assignIds = .ok f') :
    f'.assignIds = .ok f' := by
  by_cases hb : f.blocks = []
  · rw [assignIds_of_blocks_nil hb] at h
    cases h
    exact assignIds_of_blocks_nil hb
  · obtain ⟨t, ht, rfl⟩ := (assignIds_eq_ok_iff hb).mp h
    exact (assignIds_eq_ok_iff (f := { f with locals := t }) hb).mpr
      ⟨t, numberSlots_idempotent hv.nodup hv.lt_size (Nat.zero_le _) ht, rfl⟩

/-- A numbered function prints. -/
theorem print_of_assignIds (h : f.assignIds = .ok f) : ∃ text, f.print = .ok text := by
  cases hp : f.print with
  | ok text => exact ⟨text, rfl⟩
  | error e =>
    by_cases hd : f.isDeclaration = true
    · simp [print, hd] at hp
    · simp [print, hd, h, bind, Except.bind, pure, Except.pure] at hp

end Function

/-! ## The functions of a checked module -/

/-- **A checked function visits each of its locals once**, or has no blocks. -/
theorem Scope.lowerFunction_visitsDistinct {s : Scope} {f : Ast.Function} {F : Function}
    {q q' : FixupQueue} (h : (s.lowerFunction f).run.run q = (.ok F, q')) :
    F.blocks = [] ∨ F.VisitsDistinct := by
  cases hbody : f.body with
  | none => exact .inl (Scope.lowerFunction_blocks_of_declaration h hbody)
  | some body =>
    obtain ⟨l, hist, -, hd, -⟩ := Scope.lowerFunction_describes h hbody
    exact .inr ⟨hd.visitOrder_nodup.1, hd.visitOrder_nodup.2⟩

/-- **The functions of a checked module are numbered once and for all**: each visits its locals
    once (or has no blocks), and numbering it again changes nothing. -/
theorem lowerModule_funcs_numbered {m : Ast.Module} {M : Module} (h : lowerModule m = .ok M) :
    ∀ F ∈ M.funcs, (F.blocks = [] ∨ F.VisitsDistinct) ∧ F.assignIds = .ok F := by
  obtain ⟨s, globals, funcs, queue, hs, hitems⟩ := lowerModule_stages h
  have hnum := lowerModule_funcs hs hitems h
  intro F' hF'
  obtain ⟨F, hF, hFF'⟩ := forall₂_exists_left hnum F' hF'
  obtain ⟨f, -, q₁, q₂, hlow⟩ := forall₂_exists_left (Scope.lowerItems_funcs hitems) F hF
  rcases Scope.lowerFunction_visitsDistinct hlow with hb | hv
  · rw [Function.assignIds_of_blocks_nil hb] at hFF'
    cases hFF'
    exact ⟨.inl hb, Function.assignIds_of_blocks_nil hb⟩
  · exact ⟨.inr (hv.of_assignIds hFF'), Function.assignIds_idempotent hv hFF'⟩

/-- A checked module prints. -/
theorem lowerModule_print {m : Ast.Module} {M : Module} (h : lowerModule m = .ok M) :
    ∃ text, M.print = .ok text := by
  have hfuncs : ∃ texts, M.funcs.mapM Function.print = .ok texts := by
    cases hp : M.funcs.mapM Function.print with
    | ok texts => exact ⟨texts, rfl⟩
    | error e =>
      obtain ⟨F, hF, he⟩ := Except.mapM_eq_error hp
      obtain ⟨text, htext⟩ := Function.print_of_assignIds (lowerModule_funcs_numbered h F hF).2
      rw [htext] at he
      cases he
  obtain ⟨texts, htexts⟩ := hfuncs
  cases hp : M.print with
  | ok text => exact ⟨text, rfl⟩
  | error e => simp [Module.print, htexts, bind, Except.bind, pure, Except.pure] at hp

/-! ## The whole statement -/

/-- **Numbering is dense, checked and idempotent.** A function without blocks is left as it is.
    For a function with blocks that visits each of its locals once and has no more anonymous locals
    than 32-bit numbers, numbering succeeds exactly when
    each anonymous local `lₖ` is unnumbered or numbered `k`, and then numbers each `lₖ` with `k`,
    leaves the other locals and the rest of the function as they were, and is a fixed point; it
    fails exactly at the first `lₖ` that is neither, reporting `k` and the number found there, the
    walk up to it having numbered `l₀ … lₖ₋₁` and nothing else. Lowering gives only such
    functions, so a checked module prints, and printing it renumbers nothing. -/
theorem assignIds_dense_idempotent :
    (∀ f : Function, f.blocks = [] → f.assignIds = .ok f) ∧
    (∀ f : Function, f.VisitsDistinct → f.anonVisits.length ≤ maxLocalId → f.blocks ≠ [] →
      ((∃ f', f.assignIds = .ok f') ↔ ∀ k s, f.anonVisits[k]? = some s →
          f.locals.ident s = .anon 0 ∨ f.locals.ident s = .anon k) ∧
      (∀ f', f.assignIds = .ok f' →
          (∀ k s, f.anonVisits[k]? = some s → f'.locals.ident s = .anon k) ∧
          (∀ s, s ∉ f.anonVisits → f'.locals.ident s = f.locals.ident s) ∧
          f' = { f with locals := f'.locals } ∧ f'.assignIds = .ok f') ∧
      (∀ e, f.assignIds = .error e ↔
        ∃ k s id, f.anonVisits[k]? = some s ∧ f.locals.ident s = .anon id ∧ id ≠ 0 ∧ id ≠ k ∧
          (∀ j s', j < k → f.anonVisits[j]? = some s' →
            f.locals.ident s' = .anon 0 ∨ f.locals.ident s' = .anon j) ∧
          e = .invalidLocalId f.name k id ∧
          ∃ pre post t, f.visitOrder = pre ++ s :: post ∧
            Function.numberSlots f.name pre 0 f.locals = .ok t ∧
            (∀ j s', j < k → f.anonVisits[j]? = some s' → t.ident s' = .anon j) ∧
            ∀ x, x ∉ f.anonVisits.take k → t.ident x = f.locals.ident x)) ∧
    (∀ m M, lowerModule m = .ok M →
      (∀ F ∈ M.funcs, F.assignIds = .ok F) ∧ ∃ text, M.print = .ok text) := by
  refine ⟨fun f hb => Function.assignIds_of_blocks_nil hb, fun f hv hfit hb => ⟨?_, ?_, ?_⟩,
    fun m M h => ⟨fun F hF => (lowerModule_funcs_numbered h F hF).2, lowerModule_print h⟩⟩
  · exact Function.assignIds_ok_iff hv hb hfit
  · intro f' h
    obtain ⟨hnum, hother⟩ := Function.assignIds_numbers hv hb h
    exact ⟨hnum, hother, Function.assignIds_eq_ok_locals h, Function.assignIds_idempotent hv h⟩
  · intro e
    rw [Function.assignIds_eq_error_iff_first hv hb hfit]
    constructor
    · rintro ⟨k, s, id, hk, hid, h0, hne, hgood, rfl⟩
      exact ⟨k, s, id, hk, hid, h0, hne, hgood, rfl, Function.assignIds_walk_before hv hfit hk hgood⟩
    · rintro ⟨k, s, id, hk, hid, h0, hne, hgood, rfl, -⟩
      exact ⟨k, s, id, hk, hid, h0, hne, hgood, rfl⟩

/-- `define i32 @f(i32 %0, i32 %x)` with an unnamed entry block (`%0 = add`, `%y = add`, then
    `br label %next`) and a block `next:` holding `%1 = add` and a return: the anonymous locals are
    the first parameter, the entry label and the two unnamed results, in slots `0, 2, 3, 6`. -/
def sampleFunction : Function where
  name := "f"
  sig := ⟨.int 32, [.int 32, .int 32], false⟩
  params := [⟨.int 32, [], 0⟩, ⟨.int 32, [], 1⟩]
  blocks :=
    [⟨2, [⟨some 3, .binary .add (.reg 0 (.int 32)) (.const (.int ⟨32, 1⟩))⟩,
          ⟨some 4, .binary .add (.reg 0 (.int 32)) (.const (.int ⟨32, 1⟩))⟩], .br 5⟩,
     ⟨5, [⟨some 6, .binary .add (.reg 0 (.int 32)) (.const (.int ⟨32, 1⟩))⟩],
       .ret (some (.const (.int ⟨32, 0⟩)))⟩]
  locals := #[.anon 0, .named "x", .anon 0, .anon 0, .named "y", .named "next", .anon 0]

/-- The sample function is numbered `%0 … %3` in visiting order and numbering it again changes
    nothing; with the last result written `%7`, numbering refuses it at position `3`, after the
    walk up to it has numbered the entry block's unnamed result `%2`. -/
theorem sampleFunction_numbered :
    (∃ f', sampleFunction.assignIds = .ok f' ∧ f'.locals.ident 6 = .anon 3 ∧
      f'.assignIds = .ok f') ∧
    ∃ pre t, Function.numberSlots "f" pre 0 (sampleFunction.locals.set! 6 (.anon 7)) = .ok t ∧
      t.ident 3 = .anon 2 := by
  have hb : sampleFunction.blocks ≠ [] := by simp [sampleFunction]
  have hall := assignIds_dense_idempotent.2.1 sampleFunction ⟨by decide, by decide⟩ (by decide) hb
  have hvisits : sampleFunction.anonVisits = [0, 2, 3, 6] := by decide
  obtain ⟨f', hf'⟩ := hall.1.mpr fun k s hk => by
    rw [hvisits] at hk
    rcases k with _ | _ | _ | _ | k <;> simp at hk <;> subst hk <;> decide
  obtain ⟨hnum, -, -, hidem⟩ := hall.2.1 f' hf'
  refine ⟨⟨f', hf', hnum 3 6 (by rw [hvisits]; rfl), hidem⟩, ?_⟩
  -- the same function with its last result written `%7`
  have herr := (assignIds_dense_idempotent.2.1
      { sampleFunction with locals := sampleFunction.locals.set! 6 (.anon 7) }
      ⟨by decide, by decide⟩ (by decide) hb).2.2 (.invalidLocalId "f" 3 7)
  obtain ⟨k, s, id, hk, -, -, -, -, he, pre, -, t, -, ht, hbefore, -⟩ := herr.mp rfl
  cases he
  exact ⟨pre, t, ht, hbefore 2 3 (by decide) (by decide)⟩

/-- `define void @f(i32, i32)` whose two parameters share one unnamed identity, in slot `0`, and
    whose entry block is labelled by slot `1`: a function no lowering builds, since lowering gives
    each parameter a slot of its own. -/
def sharedParams : Function where
  name := "f"
  sig := ⟨.void, [.int 32, .int 32], false⟩
  params := [⟨.int 32, [], 0⟩, ⟨.int 32, [], 0⟩]
  blocks := [⟨1, [], .ret none⟩]
  locals := #[.anon 0, .anon 0]

/-- **Without distinct visits numbering is not dense.** Numbering visits the shared identity at
    positions `0` and `1`: the first visit numbers it `0`, the second finds that `0` and numbers it
    `1`, so numbering succeeds and leaves `l₀` numbered `1`. -/
theorem sharedParams_numbered_one :
    sharedParams.anonVisits = [0, 0, 1] ∧
      ∃ f', sharedParams.assignIds = .ok f' ∧ f'.locals.ident 0 = .anon 1 :=
  ⟨by decide, _, rfl, by decide⟩

end LlvmAsm
