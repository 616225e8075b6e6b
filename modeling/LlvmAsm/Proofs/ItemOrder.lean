import LlvmAsm.Proofs.Lowering.ScopeAgreement
import LlvmAsm.Proofs.Lowering.Steps
import LlvmAsm.Proofs.TypeAliases
import LlvmAsm.Proofs.BlockAddresses

/-!
# `Proofs.ItemOrder` — the order of globals and functions does not matter

A module's globals and functions may be written in any order: every symbol is declared before any
constant is checked, each function is checked and numbered on its own, and block addresses are
resolved against the finished module. Lowering a module whose globals and functions are listed in
another order, its type, comdat and attribute-group definitions left in place, succeeds exactly
when lowering the module as written does, and gives the same module with its globals and functions
listed in the new order, each lowered to the same global or function.

The argument follows the stages of `lowerModule`:

* the scope: declaring the symbols succeeds exactly when every written content type and signature
  is well formed and no two items share a name (`Scope.ofModule_eq_ok_iff`), which does not depend
  on the order, and the scopes of the two orders agree (`Scope.ofModule_reorder`);
* the items: in agreeing scopes and from any queue each global and function is checked alike
  (`Scope.Agrees.lowerItems_eq`, `LowerM.Appends`), so the reordered items give the reordered
  results and queue the same block addresses in another order (`Scope.lowerItems_result`,
  `Scope.lowerItems_queued`);
* numbering works function by function, and a block address finds its function by name, which no
  two functions share (`Module.func?_perm`).

Main statement: `lowerModule_reorder`.
-/

namespace LlvmAsm

/-! ## Looking up in lists with distinct keys -/

/-- In lists with distinct keys, a permutation looks every key up alike. -/
theorem lookup_perm {α β : Type} [BEq α] [LawfulBEq α] {l l' : List (α × β)} (hp : l.Perm l')
    (hnd : (l.map Prod.fst).Nodup) (k : α) : l.lookup k = l'.lookup k := by
  have hnd' : (l'.map Prod.fst).Nodup := (hp.map Prod.fst).nodup_iff.mp hnd
  cases hk : l.lookup k with
  | some b =>
    have hmem : (k, b) ∈ l' := hp.mem_iff.mp ((lookup_eq_some_iff_mem hnd).mp hk)
    exact ((lookup_eq_some_iff_mem hnd').mpr hmem).symm
  | none =>
    cases hk' : l'.lookup k with
    | none => rfl
    | some b =>
      -- the entry found in `l'` is in `l` too, where nothing was found
      have hmem : (k, b) ∈ l := hp.mem_iff.mpr ((lookup_eq_some_iff_mem hnd').mp hk')
      rw [(lookup_eq_some_iff_mem hnd).mpr hmem] at hk
      cases hk

/-- In a module whose functions have distinct names, listing them in another order finds every
name alike. -/
theorem Module.func?_perm {M M' : Module} (hp : M'.funcs.Perm M.funcs)
    (hnd : (M.funcs.map (·.name)).Nodup) (n : String) : M'.func? n = M.func? n := by
  have hnd' : (M'.funcs.map (·.name)).Nodup := (hp.map _).nodup_iff.mpr hnd
  ext F
  rw [Module.func?_eq_some_iff hnd', Module.func?_eq_some_iff hnd, hp.mem_iff]

/-! ## The symbols of a module -/

namespace Ast

/-- The signature a function header writes. -/
def Header.writtenSig (h : Header) : FuncSig := ⟨h.ret, h.params.map (·.ty), h.variadic⟩

/-- The types a function header writes are well formed. -/
def Header.WellTyped (known : String → Prop) (h : Header) : Prop :=
  h.ret.WellFormed known ∧ Ty.WellFormedList known (h.params.map (·.ty))

/-- The symbol a global declares: its name, at the address type of its written content type. -/
def Global.symbol (g : Global) : String × Symbol := (g.name, ⟨.global, .ptr g.contentTy⟩)

/-- The symbol a function declares: its name, at the address type of its written signature. -/
def Function.symbol (f : Function) : String × Symbol :=
  (f.header.name, ⟨.function, .ptr f.header.writtenSig.toTy⟩)

@[simp] theorem Global.symbol_fst (g : Global) : g.symbol.1 = g.name := rfl

@[simp] theorem Function.symbol_fst (f : Function) : f.symbol.1 = f.header.name := rfl

end Ast

namespace Scope

variable {s s' : Scope}

/-- **Checking a signature** succeeds exactly when the header's types are well formed, and gives
the signature written. -/
theorem lowerSignature_eq_ok_iff {h : Ast.Header} {sig : FuncSig} :
    s.lowerSignature h = .ok sig ↔
      h.WellTyped (s.types.contains · = true) ∧ sig = h.writtenSig := by
  simp only [lowerSignature, Except.bind_eq_ok_iff, lowerType_eq_ok_iff, lowerTypes_eq_ok_iff]
  constructor
  · rintro ⟨_, ⟨hret, rfl⟩, _, ⟨hparams, rfl⟩, hsig⟩
    cases hsig
    exact ⟨⟨hret, hparams⟩, rfl⟩
  · rintro ⟨⟨hret, hparams⟩, rfl⟩
    exact ⟨_, ⟨hret, rfl⟩, _, ⟨hparams, rfl⟩, rfl⟩

/-- **Declaring a name** succeeds exactly when it has no symbol yet, and adds its symbol last. -/
theorem declare_eq_ok_iff {name : String} {sym : Symbol} :
    s.declare name sym = .ok s' ↔
      s.symbol? name = none ∧ s' = { s with symbols := s.symbols ++ [(name, sym)] } := by
  by_cases hn : s.symbol? name = none
  · simp [declare, hn, eq_comm]
  · simp [declare, hn, Option.isSome_iff_ne_none]

/-- A name has no symbol once another is declared exactly when it had none and is not that one. -/
theorem symbol?_push_eq_none {n k : String} {sym : Symbol} :
    ({ s with symbols := s.symbols ++ [(n, sym)] } : Scope).symbol? k = none ↔
      s.symbol? k = none ∧ k ≠ n := by
  rw [symbol?, List.lookup_append, Option.or_eq_none_iff]
  by_cases hk : k = n
  · subst hk
    simp
  · simp only [List.lookup_cons, beq_false_of_ne hk, List.lookup_nil, symbol?, ne_eq, hk,
      not_false_eq_true, and_true]

/-- Names are **fresh** in a scope when they are distinct and none of them has a symbol yet. -/
def Fresh (s : Scope) (names : List String) : Prop :=
  names.Nodup ∧ ∀ n ∈ names, s.symbol? n = none

theorem fresh_nil (s : Scope) : s.Fresh [] := And.intro List.nodup_nil (List.forall_mem_nil _)

theorem fresh_cons {n : String} {names : List String} :
    s.Fresh (n :: names) ↔ s.symbol? n = none ∧ n ∉ names ∧ s.Fresh names := by
  simp only [Fresh, List.nodup_cons, List.forall_mem_cons]
  tauto

/-- Names stay fresh once another name is declared exactly when they were and do not hold it. -/
theorem fresh_push {n : String} {sym : Symbol} {names : List String} :
    ({ s with symbols := s.symbols ++ [(n, sym)] } : Scope).Fresh names ↔
      s.Fresh names ∧ n ∉ names := by
  simp only [Fresh, symbol?_push_eq_none]
  constructor
  · rintro ⟨hnd, hfresh⟩
    exact ⟨⟨hnd, fun k hk => (hfresh k hk).1⟩, fun hn => (hfresh n hn).2 rfl⟩
  · rintro ⟨⟨hnd, hfresh⟩, hn⟩
    exact ⟨hnd, fun k hk => ⟨hfresh k hk, fun hkn => hn (hkn ▸ hk)⟩⟩

/-- **Declaring the globals** succeeds exactly when their content types are well formed and their
names fresh, and adds their symbols in order. -/
theorem declareGlobals_eq_ok_iff {gs : List Ast.Global} {s s' : Scope} :
    s.declareGlobals gs = .ok s' ↔
      (∀ g ∈ gs, g.contentTy.WellFormed (s.types.contains · = true)) ∧
      s.Fresh (gs.map (·.name)) ∧
      s' = { s with symbols := s.symbols ++ gs.map Ast.Global.symbol } := by
  induction gs generalizing s s' with
  | nil =>
    rw [declareGlobals]
    constructor
    · intro h
      cases h
      exact ⟨List.forall_mem_nil _, fresh_nil s, by simp⟩
    · rintro ⟨-, -, rfl⟩
      simp
  | cons g gs ih =>
    simp only [declareGlobals, Except.bind_eq_ok_iff, lowerType_eq_ok_iff, declare_eq_ok_iff, ih,
      List.map_cons, fresh_cons, List.forall_mem_cons]
    constructor
    · rintro ⟨_, ⟨hwf, rfl⟩, _, ⟨hfresh, rfl⟩, hwfs, hfreshs, rfl⟩
      obtain ⟨hfreshs, hn⟩ := fresh_push.mp hfreshs
      exact ⟨⟨hwf, hwfs⟩, ⟨hfresh, hn, hfreshs⟩, by simp [Ast.Global.symbol]⟩
    · rintro ⟨⟨hwf, hwfs⟩, ⟨hfresh, hn, hfreshs⟩, rfl⟩
      exact ⟨_, ⟨hwf, rfl⟩, _, ⟨hfresh, rfl⟩, hwfs, fresh_push.mpr ⟨hfreshs, hn⟩,
        by simp [Ast.Global.symbol]⟩

/-- **Declaring the functions** succeeds exactly when their signatures are well formed and their
names fresh, and adds their symbols in order. -/
theorem declareFunctions_eq_ok_iff {fs : List Ast.Function} {s s' : Scope} :
    s.declareFunctions fs = .ok s' ↔
      (∀ f ∈ fs, f.header.WellTyped (s.types.contains · = true)) ∧
      s.Fresh (fs.map (·.header.name)) ∧
      s' = { s with symbols := s.symbols ++ fs.map Ast.Function.symbol } := by
  induction fs generalizing s s' with
  | nil =>
    rw [declareFunctions]
    constructor
    · intro h
      cases h
      exact ⟨List.forall_mem_nil _, fresh_nil s, by simp⟩
    · rintro ⟨-, -, rfl⟩
      simp
  | cons f fs ih =>
    simp only [declareFunctions, Except.bind_eq_ok_iff, lowerSignature_eq_ok_iff,
      declare_eq_ok_iff, ih, List.map_cons, fresh_cons, List.forall_mem_cons]
    constructor
    · rintro ⟨_, ⟨hwf, rfl⟩, _, ⟨hfresh, rfl⟩, hwfs, hfreshs, rfl⟩
      obtain ⟨hfreshs, hn⟩ := fresh_push.mp hfreshs
      exact ⟨⟨hwf, hwfs⟩, ⟨hfresh, hn, hfreshs⟩, by simp [Ast.Function.symbol]⟩
    · rintro ⟨⟨hwf, hwfs⟩, ⟨hfresh, hn, hfreshs⟩, rfl⟩
      exact ⟨_, ⟨hwf, rfl⟩, _, ⟨hfresh, rfl⟩, hwfs, fresh_push.mpr ⟨hfreshs, hn⟩,
        by simp [Ast.Function.symbol]⟩

/-- A name has no symbol exactly when no symbol is declared under it. -/
theorem symbol?_eq_none_iff {n : String} : s.symbol? n = none ↔ n ∉ s.symbols.map Prod.fst := by
  simp only [symbol?, List.lookup_eq_none_iff, bne_iff_ne, ne_eq, List.mem_map, not_exists, not_and]
  exact ⟨fun h p hp hpn => h p hp hpn.symm, fun h p hp hnp => h p hp hnp.symm⟩

/-- Defining comdats keeps the named types. -/
theorem defineComdats_types :
    ∀ {cs : List ComdatDef} {s s' : Scope}, s.defineComdats cs = .ok s' → s'.types = s.types
  | [], s, s', h => by
    simp only [defineComdats, Except.ok.injEq] at h
    rw [h]
  | c :: cs, s, s', h => by
    simp only [defineComdats] at h
    split at h
    · cases h
    · -- the comdat is added, the types kept
      have hrest := defineComdats_types h
      exact hrest

/-- **The scope of a module**: its named types and comdats, then the symbol of each global and of
each function, in the order written. Declaring the symbols succeeds exactly when every written
content type and signature is well formed and no two items share a name. -/
theorem ofModule_eq_ok_iff {m : Ast.Module} :
    Scope.ofModule m = .ok s ↔
      ∃ types s₀, TypeTable.define m.typeDefs = .ok types ∧
        ({ types } : Scope).defineComdats m.comdats = .ok s₀ ∧
        (∀ g ∈ m.globals, g.contentTy.WellFormed (types.contains · = true)) ∧
        (∀ f ∈ m.funcs, f.header.WellTyped (types.contains · = true)) ∧
        (m.globals.map (·.name) ++ m.funcs.map (·.header.name)).Nodup ∧
        s = { s₀ with
          symbols := m.globals.map Ast.Global.symbol ++ m.funcs.map Ast.Function.symbol } := by
  unfold Scope.ofModule
  simp only [Except.bind_eq_ok_iff, declareGlobals_eq_ok_iff, declareFunctions_eq_ok_iff]
  constructor
  · rintro ⟨types, htypes, s₀, hs₀, _, ⟨hwfg, hfreshg, rfl⟩, hwff, hfreshf, rfl⟩
    have hty : s₀.types = types := defineComdats_types hs₀
    have hsym : s₀.symbols = [] := defineComdats_symbols hs₀
    -- a function name is fresh after the globals exactly when no global has it
    have hapart : ∀ n ∈ m.funcs.map (·.header.name), n ∉ m.globals.map (·.name) := by
      intro n hn
      simpa [symbol?_eq_none_iff, hsym, List.map_map, Function.comp_def] using hfreshf.2 n hn
    refine ⟨types, s₀, htypes, hs₀, hty ▸ hwfg, hty ▸ hwff, ?_, by simp [hsym]⟩
    exact List.nodup_append.mpr
      ⟨hfreshg.1, hfreshf.1, fun a ha b hb hab => hapart b hb (hab ▸ ha)⟩
  · rintro ⟨types, s₀, htypes, hs₀, hwfg, hwff, hnd, rfl⟩
    have hty : s₀.types = types := defineComdats_types hs₀
    have hsym : s₀.symbols = [] := defineComdats_symbols hs₀
    obtain ⟨hndg, hndf, hapart⟩ := List.nodup_append.mp hnd
    refine ⟨types, htypes, s₀, hs₀, _, ⟨hty ▸ hwfg, ⟨hndg, fun n _ => ?_⟩, rfl⟩,
      hty ▸ hwff, ⟨hndf, fun n hn => ?_⟩, by simp [hsym]⟩
    · simp [symbol?, hsym]
    · -- a function name is no global's
      rw [symbol?_eq_none_iff]
      simp only [hsym, List.nil_append, List.map_map, Function.comp_def, Ast.Global.symbol_fst]
      exact fun hg => hapart n hg n hn rfl

/-- **Reordering the items keeps the scope.** The scope of a module whose globals and functions
are permuted exists when that of the module does, and the two agree: the same named types, the
same comdats, and the same symbol for every name. -/
theorem ofModule_reorder {m : Ast.Module} {gs : List Ast.Global} {fs : List Ast.Function}
    (hg : gs.Perm m.globals) (hf : fs.Perm m.funcs) (hs : Scope.ofModule m = .ok s) :
    ∃ s', Scope.ofModule { m with globals := gs, funcs := fs } = .ok s' ∧ s.Agrees s' := by
  obtain ⟨types, s₀, htypes, hs₀, hwfg, hwff, hnd, rfl⟩ := ofModule_eq_ok_iff.mp hs
  have hnames : (gs.map (·.name) ++ fs.map (·.header.name)).Perm
      (m.globals.map (·.name) ++ m.funcs.map (·.header.name)) := (hg.map _).append (hf.map _)
  have hsyms : (m.globals.map Ast.Global.symbol ++ m.funcs.map Ast.Function.symbol).Perm
      (gs.map Ast.Global.symbol ++ fs.map Ast.Function.symbol) :=
    ((hg.map _).append (hf.map _)).symm
  have hkeys : ((m.globals.map Ast.Global.symbol ++ m.funcs.map Ast.Function.symbol).map
      Prod.fst).Nodup := by
    simpa [List.map_map, Function.comp_def] using hnd
  refine ⟨_, ofModule_eq_ok_iff.mpr ⟨types, s₀, htypes, hs₀,
    fun g hg' => hwfg g (hg.mem_iff.mp hg'), fun f hf' => hwff f (hf.mem_iff.mp hf'),
    hnames.nodup_iff.mpr hnd, rfl⟩, ⟨rfl, rfl, fun n => ?_⟩⟩
  exact lookup_perm hsyms hkeys n

/-! ## The items of a module -/

variable (s : Scope) (m : Ast.Module)

/-- **The items give the results of their globals, then of their functions**, each checked on its
own from the empty queue. -/
theorem lowerItems_result :
    (s.lowerItems m).result = (do
      let globals ← m.globals.mapM fun g => (s.lowerGlobal g).result
      let funcs ← m.funcs.mapM fun f => (s.lowerFunction f).result
      pure (globals, funcs)) := by
  have hg := LowerM.Appends.mapM fun g (_ : g ∈ m.globals) => s.lowerGlobal_appends g
  have hf := LowerM.Appends.mapM fun f (_ : f ∈ m.funcs) => s.lowerFunction_appends f
  unfold lowerItems
  rw [hg.bind_result fun _ => hf.bind fun _ => .pure _,
    LowerM.Appends.mapM_result fun g _ => s.lowerGlobal_appends g]
  congr 1
  funext globals
  rw [hf.bind_result fun _ => .pure _,
    LowerM.Appends.mapM_result fun f _ => s.lowerFunction_appends f]
  rfl

/-- **Checked items queue the block addresses of their globals, then of their functions**, each
as it queues them on its own. -/
theorem lowerItems_queued {r : List Global × List Function} (h : (s.lowerItems m).result = .ok r) :
    (s.lowerItems m).queued =
      m.globals.flatMap (fun g => (s.lowerGlobal g).queued) ++
        m.funcs.flatMap (fun f => (s.lowerFunction f).queued) := by
  have hg := LowerM.Appends.mapM fun g (_ : g ∈ m.globals) => s.lowerGlobal_appends g
  have hf := LowerM.Appends.mapM fun f (_ : f ∈ m.funcs) => s.lowerFunction_appends f
  rw [lowerItems_result] at h
  obtain ⟨globals, hglobals, h⟩ := Except.bind_eq_ok_iff.mp h
  obtain ⟨funcs, hfuncs, -⟩ := Except.bind_eq_ok_iff.mp h
  rw [← LowerM.Appends.mapM_result fun g _ => s.lowerGlobal_appends g] at hglobals
  rw [← LowerM.Appends.mapM_result fun f _ => s.lowerFunction_appends f] at hfuncs
  unfold lowerItems
  rw [hg.bind_queued (fun _ => hf.bind fun _ => .pure _) hglobals,
    hf.bind_queued (fun _ => .pure _) hfuncs, LowerM.queued_pure, List.append_nil,
    LowerM.Appends.mapM_queued (fun g _ => s.lowerGlobal_appends g) hglobals,
    LowerM.Appends.mapM_queued (fun f _ => s.lowerFunction_appends f) hfuncs]

end Scope

/-! ## Lowering a reordered module -/

namespace Except

variable {ε α β : Type}

/-- A traversal that maps each element to `g` of it gives the list mapped by `g`. -/
theorem mapM_eq_ok_map {f : α → Except ε β} {g : α → β} :
    ∀ {xs : List α}, (∀ x ∈ xs, f x = .ok (g x)) → xs.mapM f = .ok (xs.map g)
  | [], _ => rfl
  | x :: xs, h => by
    rw [List.mapM_cons, h x List.mem_cons_self,
      mapM_eq_ok_map fun y hy => h y (List.mem_cons_of_mem _ hy)]
    rfl

/-- **A successful traversal** maps its elements by a function it agrees with on them. -/
theorem mapM_eq_ok_exists_map [Inhabited β] {f : α → Except ε β} {xs : List α} {ys : List β}
    (h : xs.mapM f = .ok ys) :
    ∃ g : α → β, (∀ x ∈ xs, f x = .ok (g x)) ∧ ys = xs.map g := by
  let g : α → β := fun x => (f x).toOption.getD default
  have hg : ∀ x ∈ xs, f x = .ok (g x) := by
    intro x hx
    obtain ⟨y, -, hy⟩ := forall₂_exists_right (mapM_eq_ok_iff.mp h) x hx
    simp [g, hy, Except.toOption]
  have hmap := mapM_eq_ok_map hg
  rw [h] at hmap
  exact ⟨g, hg, Except.ok.inj hmap⟩

end Except

namespace Scope

variable (s : Scope) (m : Ast.Module)

/-- **Checked items, one by one**: each global and each function of items that check is checked
on its own to the value the items hold for it. -/
theorem lowerItems_eq_ok_map {globals : List Global} {funcs : List Function}
    (h : (s.lowerItems m).result = .ok (globals, funcs)) :
    ∃ (lowerG : Ast.Global → Global) (lowerF : Ast.Function → Function),
      (∀ g ∈ m.globals, (s.lowerGlobal g).result = .ok (lowerG g)) ∧
      (∀ f ∈ m.funcs, (s.lowerFunction f).result = .ok (lowerF f)) ∧
      globals = m.globals.map lowerG ∧ funcs = m.funcs.map lowerF := by
  rw [lowerItems_result] at h
  obtain ⟨globals', hglobals, h⟩ := Except.bind_eq_ok_iff.mp h
  obtain ⟨funcs', hfuncs, h⟩ := Except.bind_eq_ok_iff.mp h
  cases h
  obtain ⟨lowerG, hLG, rfl⟩ := Except.mapM_eq_ok_exists_map hglobals
  obtain ⟨lowerF, hLF, rfl⟩ := Except.mapM_eq_ok_exists_map hfuncs
  exact ⟨lowerG, lowerF, hLG, hLF, rfl, rfl⟩

/-- Items whose globals and functions each check on their own check to the list of those values. -/
theorem lowerItems_result_eq_map {lowerG : Ast.Global → Global} {lowerF : Ast.Function → Function}
    (hLG : ∀ g ∈ m.globals, (s.lowerGlobal g).result = .ok (lowerG g))
    (hLF : ∀ f ∈ m.funcs, (s.lowerFunction f).result = .ok (lowerF f)) :
    (s.lowerItems m).result = .ok (m.globals.map lowerG, m.funcs.map lowerF) := by
  rw [lowerItems_result, Except.mapM_eq_ok_map hLG, Except.mapM_eq_ok_map hLF]
  rfl

/-- Items listed in another order queue the same block addresses in another order. -/
theorem lowerItems_queued_perm {gs : List Ast.Global} {fs : List Ast.Function}
    (hg : gs.Perm m.globals) (hf : fs.Perm m.funcs) {r r' : List Global × List Function}
    (h : (s.lowerItems m).result = .ok r)
    (h' : (s.lowerItems { m with globals := gs, funcs := fs }).result = .ok r') :
    (s.lowerItems { m with globals := gs, funcs := fs }).queued.Perm (s.lowerItems m).queued := by
  rw [lowerItems_queued s _ h', lowerItems_queued s m h]
  exact (hg.flatMap_right _).append (hf.flatMap_right _)

end Scope

/-- Draining the queue succeeds exactly when every queued block address resolves. -/
theorem FixupQueue.drain_ok_iff {q : FixupQueue} {M : Module} :
    (∃ n, (q.drain M).1 = .ok n) ↔ ∀ r ∈ q.pending, r.resolve M = .ok () := by
  rw [← Except.forM_eq_ok_iff]
  unfold FixupQueue.drain
  constructor
  · rintro ⟨n, hn⟩
    cases hf : q.pending.forM (BlockRef.resolve M) with
    | ok u => rfl
    | error e =>
      rw [hf] at hn
      cases hn
  · intro hall
    rw [hall]
    exact ⟨_, rfl⟩

/-- A block address resolves alike in modules that find its function alike. -/
theorem BlockRef.resolve_congr {M M' : Module} {r : BlockRef}
    (h : M'.func? r.func = M.func? r.func) : r.resolve M' = r.resolve M := by
  simp only [BlockRef.resolve, h]

/-- **Draining a reordered queue.** Block addresses taken from a queue that drains resolve in a
module whose functions are those of the first, with distinct names, in another order. -/
theorem FixupQueue.drain_reorder {q : FixupQueue} {rs : List BlockRef} {M M' : Module}
    (hrs : ∀ r ∈ rs, r ∈ q.pending) (hp : M'.funcs.Perm M.funcs)
    (hnd : (M.funcs.map (·.name)).Nodup) (h : ∃ n, (q.drain M).1 = .ok n) :
    ∃ n, (FixupQueue.drain ⟨rs⟩ M').1 = .ok n := by
  have hresolved := FixupQueue.drain_ok_iff.mp h
  refine FixupQueue.drain_ok_iff.mpr fun r hr => ?_
  rw [BlockRef.resolve_congr (Module.func?_perm hp hnd r.func)]
  exact hresolved r (hrs r hr)

/-- Numbering a module numbers its functions one by one. -/
theorem Module.assignIds_of_funcs {M : Module} {funcs : List Function}
    (h : M.funcs.mapM Function.assignIds = .ok funcs) :
    M.assignIds = .ok { M with funcs := funcs } := by
  unfold Module.assignIds
  rw [h]
  rfl

variable {m : Ast.Module} {gs : List Ast.Global} {fs : List Ast.Function}

/-- **A lowered module, reordered.** When a module lowers, the module with its globals and
functions permuted lowers too, to the same module with its globals and functions permuted alike:
each item is lowered to the same global or function in either order. -/
theorem lowerModule_reorder_of_ok (hg : gs.Perm m.globals) (hf : fs.Perm m.funcs) {M : Module}
    (h : lowerModule m = .ok M) :
    ∃ (lowerG : Ast.Global → Global) (lowerF : Ast.Function → Function),
      M.globals = m.globals.map lowerG ∧ M.funcs = m.funcs.map lowerF ∧
      lowerModule { m with globals := gs, funcs := fs } =
        .ok { M with globals := gs.map lowerG, funcs := fs.map lowerF } := by
  obtain ⟨s, globals, funcs, queue, hs, hitems⟩ := lowerModule_stages h
  rw [lowerModule_of_items hs hitems] at h
  obtain ⟨M₁, hM₁, h⟩ := Except.bind_eq_ok_iff.mp h
  obtain ⟨_, hdrain, h⟩ := Except.bind_eq_ok_iff.mp h
  cases h
  -- each global and each function is lowered on its own
  have hres : (s.lowerItems m).result = .ok (globals, funcs) := congrArg Prod.fst hitems
  have hqueue : queue.pending = (s.lowerItems m).queued := by rw [LowerM.queued, hitems]
  obtain ⟨lowerG, lowerF₀, hLG, hLF₀, rfl, rfl⟩ := Scope.lowerItems_eq_ok_map s m hres
  -- and then numbered on its own
  unfold Module.assignIds at hM₁
  obtain ⟨numbered, hnum, hM₁⟩ := Except.bind_eq_ok_iff.mp hM₁
  cases hM₁
  rw [List.mapM_map] at hnum
  obtain ⟨lowerF, hLF, rfl⟩ := Except.mapM_eq_ok_exists_map hnum
  refine ⟨lowerG, lowerF, rfl, rfl, ?_⟩
  -- the reordered module has an agreeing scope, and its items are the same ones reordered
  obtain ⟨s', hs', hagree⟩ := Scope.ofModule_reorder hg hf hs
  have hres' := Scope.lowerItems_result_eq_map s { m with globals := gs, funcs := fs }
    (fun g hg' => hLG g (hg.mem_iff.mp hg')) (fun f hf' => hLF₀ f (hf.mem_iff.mp hf'))
  have hitems' : (s'.lowerItems { m with globals := gs, funcs := fs }).run.run {} =
      (.ok (gs.map lowerG, fs.map lowerF₀),
        ⟨(s.lowerItems { m with globals := gs, funcs := fs }).queued⟩) := by
    rw [← hagree.lowerItems_eq]
    exact Prod.ext hres' rfl
  have hnum' : (fs.map lowerF₀).mapM Function.assignIds = .ok (fs.map lowerF) := by
    rw [List.mapM_map]
    exact Except.mapM_eq_ok_map fun f hf' => hLF f (hf.mem_iff.mp hf')
  rw [lowerModule_of_items hs' hitems', Module.assignIds_of_funcs hnum']
  -- every queued block address resolves: it is one of the module's, and finds the same function
  have hnames : (m.funcs.map lowerF).map (·.name) = m.funcs.map (·.header.name) := by
    rw [List.map_map]
    exact List.map_congr_left fun f hf' =>
      Scope.numbered_name (Prod.ext (hLF₀ f hf') rfl) (hLF f hf')
  have hnd : ((m.funcs.map lowerF).map (·.name)).Nodup :=
    hnames ▸ (Scope.ofModule_functions hs).1
  have hqueued : ∀ r ∈ (s.lowerItems { m with globals := gs, funcs := fs }).queued,
      r ∈ queue.pending := fun r hr =>
    hqueue ▸ (Scope.lowerItems_queued_perm s m hg hf hres hres').mem_iff.mp hr
  refine Except.bind_eq_ok_iff.mpr ⟨_, rfl, ?_⟩
  rw [Except.bind_eq_ok_iff]
  refine (FixupQueue.drain_reorder hqueued (hf.map lowerF) hnd ⟨_, hdrain⟩).imp
    fun n hn => ⟨hn, ?_⟩
  rw [← hagree.types]
  rfl

/-- **The order of globals and functions does not matter.** With its globals and functions listed
in any other order, its type, comdat and attribute-group definitions left in place, a module lowers
exactly when the module as written does; and then the two give the same module up to that order,
each global and each function lowered to the same value in either. -/
theorem lowerModule_reorder (m : Ast.Module) (hg : gs.Perm m.globals) (hf : fs.Perm m.funcs) :
    ((∃ M, lowerModule m = .ok M) ↔
        ∃ M', lowerModule { m with globals := gs, funcs := fs } = .ok M') ∧
      ∀ M M', lowerModule m = .ok M →
        lowerModule { m with globals := gs, funcs := fs } = .ok M' →
        ∃ (lowerG : Ast.Global → Global) (lowerF : Ast.Function → Function),
          M.globals = m.globals.map lowerG ∧ M.funcs = m.funcs.map lowerF ∧
          M' = { M with globals := gs.map lowerG, funcs := fs.map lowerF } := by
  refine ⟨⟨?_, ?_⟩, ?_⟩
  · rintro ⟨M, hM⟩
    obtain ⟨lowerG, lowerF, -, -, h⟩ := lowerModule_reorder_of_ok hg hf hM
    exact ⟨_, h⟩
  · -- the written module is the reordered one, reordered back
    rintro ⟨M', hM'⟩
    obtain ⟨lowerG, lowerF, -, -, h⟩ :=
      lowerModule_reorder_of_ok (m := { m with globals := gs, funcs := fs }) hg.symm hf.symm hM'
    exact ⟨_, h⟩
  · intro M M' hM hM'
    obtain ⟨lowerG, lowerF, hG, hF, h⟩ := lowerModule_reorder_of_ok hg hf hM
    rw [hM'] at h
    exact ⟨lowerG, lowerF, hG, hF, Except.ok.inj h⟩

/-- A global whose initializer names a global defined after it. -/
def laterReference : Ast.Module where
  globals :=
    [{ name := "p", contentTy := .ptr (.int 32), init := some (.global "x") },
     { name := "x", contentTy := .int 32, init := some (.int "1") }]

theorem laterReference_reordered :
    (lowerModule laterReference).toBool = true ∧
      laterReference.globals.reverse.Perm laterReference.globals ∧
      laterReference.funcs.Perm laterReference.funcs ∧
      (((∃ M, lowerModule laterReference = .ok M) ↔
          ∃ M', lowerModule { laterReference with
            globals := laterReference.globals.reverse, funcs := laterReference.funcs } = .ok M') ∧
        ∀ M M', lowerModule laterReference = .ok M →
          lowerModule { laterReference with
            globals := laterReference.globals.reverse, funcs := laterReference.funcs } = .ok M' →
          ∃ (lowerG : Ast.Global → Global) (lowerF : Ast.Function → Function),
            M.globals = laterReference.globals.map lowerG ∧
            M.funcs = laterReference.funcs.map lowerF ∧
            M' = { M with
              globals := laterReference.globals.reverse.map lowerG,
              funcs := laterReference.funcs.map lowerF }) :=
  ⟨by decide +kernel, List.reverse_perm _, List.Perm.refl _,
    lowerModule_reorder laterReference (List.reverse_perm _) (List.Perm.refl _)⟩

end LlvmAsm
