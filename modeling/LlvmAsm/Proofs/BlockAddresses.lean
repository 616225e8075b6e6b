import LlvmAsm.Proofs.LocalNumbering
import LlvmAsm.Proofs.Lowering.Queue

/-!
# `Proofs.BlockAddresses` — resolving the block addresses of a module

A block address `blockaddress(@f, %b)` is checked before `@f` is numbered, so lowering queues it with
the identity written for the block, and once every function is numbered `lowerModule` drains the
queue: each entry must name a function of the module and one of its blocks with that identity
(`BlockRef.resolve`). Once the items of a module are checked and numbered:

* the queue holds the block addresses of the module, wherever they sit, in text order, and nothing
  else (`Scope.lowerItems_queues`); each names a function of the module, and no two functions share
  a name (`Scope.ofModule_functions`);
* numbering gives the locals it visits distinct identities (`Locals.Describes.numbered_injOn`), so
  no two blocks of a function share an identity (`Scope.numbered_blockIdents_nodup`);
* `lowerModule` succeeds exactly when every queued address names a block of its function, and
  fails with a dangling block exactly when one does not;
* on a function with no load or phi of type `void`, the block an address names is the block a
  branch to the same written name goes to (`Locals.Describes.block_ident_iff`).

`lowerModule_resolves_block_addresses` states this for a module. A `void` load takes a number from
numbering but no key from the first pass, so an address written with the number a branch uses
dangles (`void_load_dangles_block_address`).
-/

namespace LlvmAsm

/-! ## The functions of a scope -/

namespace Scope

variable {s s' : Scope}

/-- Declaring a name needs it fresh, and adds its symbol after the others. -/
theorem declare_symbol? {name : String} {sym : Symbol} (h : s.declare name sym = .ok s') :
    s.symbol? name = none ∧
      ∀ n, s'.symbol? n = (s.symbol? n).or (if n = name then some sym else none) := by
  unfold declare at h
  split at h
  · cases h
  · rename_i hfresh
    cases h
    refine ⟨by simpa using hfresh, fun n => ?_⟩
    simp only [symbol?, List.lookup_append, List.lookup_cons, List.lookup_nil]
    by_cases hn : n = name
    · simp [hn]
    · simp [hn, beq_eq_false_iff_ne.mpr hn]

/-- A symbol that declaring globals adds is a global's. -/
theorem declareGlobals_symbol? {n : String} {sym : Symbol} :
    ∀ {gs : List Ast.Global} {s s' : Scope}, s.declareGlobals gs = .ok s' →
      s'.symbol? n = some sym → s.symbol? n = some sym ∨ sym.role = .global
  | [], s, s', h, hn => by
    simp only [declareGlobals, Except.ok.injEq] at h
    subst h
    exact .inl hn
  | g :: gs, s, s', h, hn => by
    simp only [declareGlobals] at h
    obtain ⟨ty, -, h₁⟩ := Except.bind_eq_ok_iff.mp h
    obtain ⟨s₁, hs₁, h₂⟩ := Except.bind_eq_ok_iff.mp h₁
    rcases declareGlobals_symbol? h₂ hn with hn₁ | hrole
    · rw [(declare_symbol? hs₁).2 n, Option.or_eq_some_iff] at hn₁
      rcases hn₁ with hn₁ | ⟨-, hadded⟩
      · exact .inl hn₁
      · split at hadded
        · cases hadded
          exact .inr rfl
        · cases hadded
    · exact .inr hrole

/-- **Declaring functions** needs their names distinct and fresh, and every symbol it adds names
    one of them. -/
theorem declareFunctions_symbol? :
    ∀ {fs : List Ast.Function} {s s' : Scope}, s.declareFunctions fs = .ok s' →
      (fs.map (·.header.name)).Nodup ∧ (∀ f ∈ fs, s.symbol? f.header.name = none) ∧
        ∀ {n : String} {sym : Symbol}, s'.symbol? n = some sym →
          s.symbol? n = some sym ∨ ∃ f ∈ fs, f.header.name = n
  | [], s, s', h => by
    simp only [declareFunctions, Except.ok.injEq] at h
    subst h
    refine ⟨List.nodup_nil, ?_, ?_⟩
    · intro f hf
      cases hf
    · intro n sym hn
      exact .inl hn
  | f :: fs, s, s', h => by
    simp only [declareFunctions] at h
    obtain ⟨sig, -, h₁⟩ := Except.bind_eq_ok_iff.mp h
    obtain ⟨s₁, hs₁, h₂⟩ := Except.bind_eq_ok_iff.mp h₁
    obtain ⟨hfresh, hadd⟩ := declare_symbol? hs₁
    obtain ⟨hnd, hrest, hsym⟩ := declareFunctions_symbol? h₂
    -- a name still fresh once `f` is declared was fresh before, and is not `f`'s
    have hbefore : ∀ n, s₁.symbol? n = none → s.symbol? n = none ∧ n ≠ f.header.name := by
      intro n hn
      rw [hadd n, Option.or_eq_none_iff] at hn
      refine ⟨hn.1, fun hnf => ?_⟩
      rw [if_pos hnf] at hn
      cases hn.2
    refine ⟨List.nodup_cons.mpr ⟨fun hmem => ?_, hnd⟩, fun g hg => ?_, fun hn => ?_⟩
    · obtain ⟨g, hg, hname⟩ := List.mem_map.mp hmem
      exact (hbefore _ (hrest g hg)).2 hname
    · rcases List.mem_cons.mp hg with rfl | hg
      · exact hfresh
      · exact (hbefore _ (hrest g hg)).1
    · rcases hsym hn with hn₁ | ⟨g, hg, hname⟩
      · rw [hadd, Option.or_eq_some_iff] at hn₁
        rcases hn₁ with hn₁ | ⟨-, hadded⟩
        · exact .inl hn₁
        · split at hadded
          · rename_i hnf
            exact .inr ⟨f, List.mem_cons_self, hnf.symm⟩
          · cases hadded
      · exact .inr ⟨g, List.mem_cons_of_mem _ hg, hname⟩

/-- Defining comdats adds no symbol. -/
theorem defineComdats_symbols :
    ∀ {cs : List ComdatDef} {s s' : Scope}, s.defineComdats cs = .ok s' → s'.symbols = s.symbols
  | [], s, s', h => by
    simp only [defineComdats, Except.ok.injEq] at h
    rw [h]
  | c :: cs, s, s', h => by
    simp only [defineComdats] at h
    split at h
    · cases h
    · -- the comdat is added, the symbols kept
      have hrest := defineComdats_symbols h
      exact hrest

/-- **The functions of a module's scope** have distinct names, and every function symbol names
    one of them. -/
theorem ofModule_functions {m : Ast.Module} (h : Scope.ofModule m = .ok s) :
    (m.funcs.map (·.header.name)).Nodup ∧
      ∀ {n : String} {ty : Ty}, s.symbol? n = some ⟨.function, ty⟩ →
        ∃ f ∈ m.funcs, f.header.name = n := by
  unfold Scope.ofModule at h
  obtain ⟨types, -, h₁⟩ := Except.bind_eq_ok_iff.mp h
  obtain ⟨s₁, hs₁, h₂⟩ := Except.bind_eq_ok_iff.mp h₁
  obtain ⟨s₂, hs₂, h₃⟩ := Except.bind_eq_ok_iff.mp h₂
  obtain ⟨hnd, -, hsym⟩ := declareFunctions_symbol? h₃
  refine ⟨hnd, fun hn => ?_⟩
  rcases hsym hn with hn₂ | hf
  · -- before the functions only globals have symbols, and the comdats add none
    rcases declareGlobals_symbol? hs₂ hn₂ with hn₁ | hrole
    · rw [symbol?, defineComdats_symbols hs₁] at hn₁
      cases hn₁
    · cases hrole
  · exact hf

/-- A checked function keeps the name of its header. -/
theorem lowerFunction_name {f : Ast.Function} {F : Function} {q q' : FixupQueue}
    (h : (s.lowerFunction f).run.run q = (.ok F, q')) : F.name = f.header.name := by
  have hin := lowerFunctionIn_of_lowerFunction h
  unfold lowerFunctionIn at hin
  obtain ⟨func, q₁, hfunc, h₁⟩ := LowerM.bind_ok hin
  obtain ⟨-, hname, -, -⟩ := lowerHeader_ok hfunc
  split at h₁
  · cases h₁
    exact hname
  · obtain ⟨_, -, h₂⟩ := LowerM.ofExcept_bind_ok h₁
    obtain ⟨_, _, -, h₃⟩ := LowerM.bind_ok h₂
    obtain ⟨_, _, -, h₄⟩ := LowerM.bind_ok h₃
    cases h₄
    exact hname

end Scope

/-! ## Block identities -/

/-- The identities of a function's blocks, in order. -/
def Function.blockIdents (f : Function) : List LocalIdent :=
  f.blocks.map fun b => f.locals.ident b.label

namespace Function

/-- A function has a block of an identity exactly when the identity is among its blocks'. -/
theorem findBlock?_isSome_iff {f : Function} {ident : LocalIdent} :
    (f.findBlock? ident).isSome ↔ ident ∈ f.blockIdents := by
  simp [findBlock?, blockIdents, List.find?_isSome]

/-- The labels of a function's blocks are visited by numbering, in order. -/
theorem labels_sublist_visitOrder (f : Function) : (f.blocks.map (·.label)).Sublist f.visitOrder := by
  unfold visitOrder
  refine List.Sublist.trans ?_ (List.sublist_append_right _ _)
  induction f.blocks with
  | nil => exact List.Sublist.slnil
  | cons b bs ih =>
    simp only [List.map_cons, List.flatMap_cons, List.cons_append]
    exact .cons_cons _ (ih.trans (List.sublist_append_right _ _))

/-- **Numbering changes identities only.** A declaration is left as it is; a definition gets the
    table numbering its visiting order gives. -/
theorem assignIds_cases {F F' : Function} (h : F.assignIds = .ok F') :
    (F' = F ∧ F.blocks = []) ∨
      ∃ t, numberSlots F.name F.visitOrder 0 F.locals = .ok t ∧ F' = { F with locals := t } := by
  unfold assignIds at h
  split at h
  · rename_i hdecl
    cases h
    exact .inl ⟨rfl, List.isEmpty_iff.mp hdecl⟩
  · obtain ⟨t, ht, h₁⟩ := Except.bind_eq_ok_iff.mp h
    cases h₁
    exact .inr ⟨t, ht, rfl⟩

/-- Numbering keeps a function's block addresses. -/
theorem blockRefs_of_assignIds {F F' : Function} (h : F.assignIds = .ok F') :
    F'.blockRefs = F.blockRefs := by
  rcases assignIds_cases h with ⟨rfl, -⟩ | ⟨t, -, rfl⟩ <;> rfl

end Function

/-- The identities written names stand for are distinct. -/
theorem LocalIdent.ofName_inj {a b : Ast.LocalName} (h : LocalIdent.ofName a = .ofName b) : a = b := by
  cases a <;> cases b <;> simp_all [LocalIdent.ofName]

/-- A named local is the local of its name's key. -/
theorem LocalRecord.Coherent.key_of_named {r : LocalRecord} {n : String} (hcoh : r.Coherent)
    (h : r.ident = .named n) : r.key = some (.name n) := by
  unfold LocalRecord.Coherent at hcoh
  cases hk : r.key with
  | none =>
    rw [hk] at hcoh
    rw [h] at hcoh
    cases hcoh
  | some k =>
    cases k with
    | name n' =>
      simp only [hk] at hcoh
      rw [h] at hcoh
      cases hcoh
      rfl
    | number k =>
      simp only [hk] at hcoh
      rcases hcoh with hc | hc <;> rw [h] at hc <;> cases hc

namespace Locals.Describes

variable {l : Locals} {types : TypeTable} {hist : List LocalRecord} {F : Function}
  {t : LocalTable}

/-- Every slot of the table is some record's. -/
theorem record_of_lt (hd : l.Describes types hist F) {slot : Nat} (hs : slot < F.locals.size) :
    ∃ r ∈ hist, r.slot = slot := by
  have hmem : slot ∈ hist.map (·.slot) := by
    rw [hd.tracks.valid.slots, List.mem_range, ← hd.tracks.realizes.size, ← hd.locals]
    exact hs
  obtain ⟨r, hr, rfl⟩ := List.mem_map.mp hmem
  exact ⟨r, hr, rfl⟩

/-- The label of a block is a keyed local. -/
theorem label_record (hd : l.Describes types hist F) {b : Block} (hb : b ∈ F.blocks) :
    ∃ r ∈ hist, r.slot = b.label ∧ ∃ k, r.key = some k := by
  have hsite : (⟨b.label, .label, .block⟩ : LocalDef) ∈ F.localDefs :=
    List.mem_append_right _ (List.mem_flatMap.mpr ⟨b, hb, List.mem_cons_self⟩)
  obtain ⟨r, hr, hfit⟩ := forall₂_exists_left hd.fits _ hsite
  refine ⟨r, hr, hfit.slot, ?_⟩
  cases hk : r.key with
  | none =>
    have hres := (hfit.keyless.mp hk).1
    cases hres
  | some k => exact ⟨k, rfl⟩

variable (hd : l.Describes types hist F)
  (ht : Function.numberSlots F.name F.visitOrder 0 F.locals = .ok t)
include hd ht

/-- Numbering gives the `j`-th anonymous local it visits the number `j`, and leaves every other
local as it was. -/
theorem numbered_ident (slot : Nat) :
    t.ident slot =
      ((Function.anonSlots F.locals F.visitOrder).idxOf? slot).elim (F.locals.ident slot) .anon := by
  obtain ⟨hnodup, hlt⟩ := hd.visitOrder_nodup
  rw [Function.numberSlots_ident hnodup hlt ht slot]
  simp only [Nat.zero_add]

/-- Numbering keeps every name. -/
theorem numbered_named {slot : Nat} {n : String} (h : F.locals.ident slot = .named n) :
    t.ident slot = .named n := by
  have hnot : slot ∉ Function.anonSlots F.locals F.visitOrder := by
    intro hm
    have hanon := (List.mem_filter.mp hm).2
    simp [h, LocalIdent.isNamed] at hanon
  rw [numbered_ident hd ht, List.idxOf?_eq_none_iff.mpr hnot, Option.elim_none, h]

/-- **Numbering gives the locals it visits distinct identities**: a number their position among
    the anonymous ones, a name the one key that spells it. -/
theorem numbered_injOn {s₁ s₂ : Nat} (h₁ : s₁ ∈ F.visitOrder) (h₂ : s₂ ∈ F.visitOrder)
    (h : t.ident s₁ = t.ident s₂) : s₁ = s₂ := by
  -- a visited local that numbering skips is named, by the key of its record
  have named : ∀ {s}, s ∈ F.visitOrder → (Function.anonSlots F.locals F.visitOrder).idxOf? s = none →
      ∃ r ∈ hist, r.slot = s ∧ ∃ n, r.key = some (.name n) ∧ t.ident s = .named n := by
    intro s hs hnone
    obtain ⟨r, hr, rfl⟩ := hd.record_of_lt (hd.visitOrder_nodup.2 s hs)
    have hnot := List.idxOf?_eq_none_iff.mp hnone
    cases hid : F.locals.ident r.slot with
    | anon k =>
      exact absurd (List.mem_filter.mpr ⟨hs, by simp [hid, LocalIdent.isNamed]⟩) hnot
    | named n =>
      have hkey := (hd.tracks.valid.coherent r hr).key_of_named ((hd.ident_slot hr).symm.trans hid)
      exact ⟨r, hr, rfl, n, hkey, numbered_named hd ht hid⟩
  have anon : ∀ {s j}, (Function.anonSlots F.locals F.visitOrder).idxOf? s = some j →
      t.ident s = .anon j := by
    intro s j hj
    rw [numbered_ident hd ht, hj, Option.elim_some]
  cases hi₁ : (Function.anonSlots F.locals F.visitOrder).idxOf? s₁ with
  | none =>
    obtain ⟨r₁, hr₁, rfl, n₁, hk₁, hn₁⟩ := named h₁ hi₁
    cases hi₂ : (Function.anonSlots F.locals F.visitOrder).idxOf? s₂ with
    | none =>
      obtain ⟨r₂, hr₂, rfl, n₂, hk₂, hn₂⟩ := named h₂ hi₂
      rw [hn₁, hn₂] at h
      cases h
      rw [hd.tracks.valid.key_inj hr₁ hr₂ hk₁ hk₂]
    | some j₂ =>
      rw [hn₁, anon hi₂] at h
      cases h
  | some j₁ =>
    cases hi₂ : (Function.anonSlots F.locals F.visitOrder).idxOf? s₂ with
    | none =>
      obtain ⟨r₂, hr₂, rfl, n₂, hk₂, hn₂⟩ := named h₂ hi₂
      rw [anon hi₁, hn₂] at h
      cases h
    | some j₂ =>
      rw [anon hi₁, anon hi₂] at h
      cases h
      -- one position holds one slot
      obtain ⟨_, hget₁, -⟩ := List.idxOf?_eq_some_iff.mp hi₁
      obtain ⟨_, hget₂, -⟩ := List.idxOf?_eq_some_iff.mp hi₂
      rw [← hget₁, ← hget₂]

/-- **No two blocks share an identity** once a function is numbered. -/
theorem blockIdents_nodup : (F.blocks.map fun b => t.ident b.label).Nodup := by
  have hsub := F.labels_sublist_visitOrder
  have hmap : (F.blocks.map fun b => t.ident b.label) = (F.blocks.map (·.label)).map t.ident := by
    rw [List.map_map]
    rfl
  rw [hmap]
  exact (hsub.nodup hd.visitOrder_nodup.1).map_on
    fun _ hx _ hy hxy => numbered_injOn hd ht (hsub.subset hx) (hsub.subset hy) hxy

/-- Under the agreement, numbering gives the local of every key the identity the key spells. -/
theorem numbered_keyed (hnv : ¬ F.HasVoidValue) {r : LocalRecord} (hr : r ∈ hist)
    {k : Ast.LocalName} (hk : r.key = some k) : t.ident r.slot = LocalIdent.ofName k := by
  cases k with
  | name n =>
    have hcoh := hd.tracks.valid.coherent r hr
    unfold LocalRecord.Coherent at hcoh
    simp only [hk] at hcoh
    exact numbered_named hd ht ((hd.ident_slot hr).trans hcoh)
  | number N =>
    have hmem : (r, N) ∈ numberKeys hist :=
      List.mem_filterMap.mpr ⟨r, hr, by simp [LocalRecord.number?, hk]⟩
    obtain ⟨j, hj⟩ := List.mem_iff_getElem?.mp hmem
    exact numbered_key (hd.anonSlots_eq hnv) hd ht hj

/-- **A written block name identifies the block a branch to it goes to.** On a function with no
    load or phi of type `void`, once numbered, a block has the identity a written name spells
    exactly when a branch to that name goes to it. -/
theorem block_ident_iff (hnv : ¬ F.HasVoidValue) {nm : Ast.LocalName} {slot : Nat}
    (hblock : l.block nm = .ok slot) {b : Block} (hb : b ∈ F.blocks) :
    t.ident b.label = LocalIdent.ofName nm ↔ b.label = slot := by
  obtain ⟨r, hr, hkey, rfl, -⟩ :=
    (get_eq_ok_iff hd.tracks.realizes hd.tracks.valid).mp (Locals.get_of_block hblock)
  obtain ⟨rb, hrb, hlabel, k, hk⟩ := hd.label_record hb
  have hident := numbered_keyed hd ht hnv hrb hk
  rw [hlabel] at hident
  constructor
  · intro h
    rw [hident] at h
    obtain rfl := LocalIdent.ofName_inj h
    rw [← hlabel, hd.tracks.valid.key_inj hrb hr hk hkey]
  · intro h
    rw [h]
    exact numbered_keyed hd ht hnv hr hkey

end Locals.Describes

namespace Scope

variable {s : Scope} {f : Ast.Function} {F F' : Function} {q q' : FixupQueue}

/-- A checked function, once numbered, keeps the name of its header. -/
theorem numbered_name (hF : (s.lowerFunction f).run.run q = (.ok F, q'))
    (hF' : F.assignIds = .ok F') : F'.name = f.header.name := by
  have hname := lowerFunction_name hF
  rcases Function.assignIds_cases hF' with ⟨rfl, -⟩ | ⟨t, -, rfl⟩ <;> exact hname

/-- **A checked function, once numbered, gives each of its blocks its own identity.** -/
theorem numbered_blockIdents_nodup (hF : (s.lowerFunction f).run.run q = (.ok F, q'))
    (hF' : F.assignIds = .ok F') : F'.blockIdents.Nodup := by
  rcases Function.assignIds_cases hF' with ⟨rfl, hnil⟩ | ⟨t, ht, rfl⟩
  · simp [Function.blockIdents, hnil]
  · cases hbody : f.body with
    | none =>
      simp [Function.blockIdents, lowerFunction_blocks_of_declaration hF hbody]
    | some body =>
      obtain ⟨l, hist, -, hd, -⟩ := lowerFunction_describes hF hbody
      exact hd.blockIdents_nodup ht

/-- **A block address finds the block a branch goes to**, in a checked and numbered function
    with no load or phi of type `void`. -/
theorem numbered_block_ident_iff (hF : (s.lowerFunction f).run.run q = (.ok F, q'))
    (hF' : F.assignIds = .ok F') {body : Ast.Body} {l : Locals} (hbody : f.body = some body)
    (hfirst : s.FirstPass f body l) (hnv : ¬ F'.HasVoidValue) {nm : Ast.LocalName} {slot : Nat}
    (hblock : l.block nm = .ok slot) {b : Block} (hb : b ∈ F'.blocks) :
    F'.locals.ident b.label = LocalIdent.ofName nm ↔ b.label = slot := by
  rcases Function.assignIds_cases hF' with ⟨rfl, hnil⟩ | ⟨t, ht, rfl⟩
  · rw [hnil] at hb
    cases hb
  · obtain ⟨l', hist, hfirst', hd, -⟩ := lowerFunction_describes hF hbody
    obtain rfl := hfirst'.unique hfirst
    exact hd.block_ident_iff ht hnv hblock hb

end Scope

/-! ## Draining the queue -/

/-- In a module whose functions have distinct names, the function of a name is the one with it. -/
theorem Module.func?_eq_some_iff {M : Module} (hnd : (M.funcs.map (·.name)).Nodup) {n : String}
    {F : Function} : M.func? n = some F ↔ F ∈ M.funcs ∧ F.name = n := by
  unfold func?
  constructor
  · intro h
    exact ⟨List.mem_of_find?_eq_some h, by simpa using List.find?_some h⟩
  · rintro ⟨hF, rfl⟩
    -- the first function with that name is `F`, since no other has it
    obtain ⟨G, hG⟩ : ∃ G, M.funcs.find? (·.name = F.name) = some G :=
      Option.isSome_iff_exists.mp (List.find?_isSome.mpr ⟨F, hF, by simp⟩)
    have hGn : G.name = F.name := by simpa using List.find?_some hG
    rw [hG, List.inj_on_of_nodup_map hnd (List.mem_of_find?_eq_some hG) hF hGn]

namespace BlockRef

variable {M : Module} {r : BlockRef} {F : Function}

/-- A block address of a function of the module resolves exactly when the function has a block of
    the written identity. -/
theorem resolve_eq_ok_iff (hF : M.func? r.func = some F) :
    r.resolve M = .ok () ↔ r.block ∈ F.blockIdents := by
  rw [← Function.findBlock?_isSome_iff]
  unfold resolve
  rw [hF]
  cases hb : (F.findBlock? r.block).isSome <;> simp [hb]

/-- A block address of a function of the module that does not resolve dangles. -/
theorem resolve_eq_error (hF : M.func? r.func = some F) {e : IrError} (h : r.resolve M = .error e) :
    e = .danglingBlock F.name r.block.render := by
  unfold resolve at h
  rw [hF] at h
  cases hb : (F.findBlock? r.block).isSome
  · simp only [hb] at h
    cases h
    rfl
  · simp [hb] at h

/-- In a module with distinct function names, an address of one of its functions resolves exactly
    when that function has a block of the written identity. -/
theorem resolve_eq_ok_iff_of_mem (hnd : (M.funcs.map (·.name)).Nodup) (hF : F ∈ M.funcs)
    (hFn : F.name = r.func) :
    r.resolve M = .ok () ↔ ∃ G ∈ M.funcs, G.name = r.func ∧ r.block ∈ G.blockIdents := by
  rw [resolve_eq_ok_iff ((Module.func?_eq_some_iff hnd).mpr ⟨hF, hFn⟩)]
  constructor
  · intro hb
    exact ⟨F, hF, hFn, hb⟩
  · rintro ⟨G, hG, hGn, hb⟩
    rwa [List.inj_on_of_nodup_map hnd hF hG (hFn.trans hGn.symm)]

variable {rs : List BlockRef} (hnd : (M.funcs.map (·.name)).Nodup)
  (hnamed : ∀ r ∈ rs, ∃ F ∈ M.funcs, F.name = r.func)
include hnd hnamed

/-- **Resolving addresses of the functions of a module** succeeds exactly when each names a block
    of its function. -/
theorem forM_resolve_eq_ok_iff :
    rs.forM (resolve M) = .ok () ↔
      ∀ r ∈ rs, ∃ F ∈ M.funcs, F.name = r.func ∧ r.block ∈ F.blockIdents := by
  rw [Except.forM_eq_ok_iff]
  refine forall₂_congr fun r hr => ?_
  obtain ⟨F, hF, hFn⟩ := hnamed r hr
  exact resolve_eq_ok_iff_of_mem hnd hF hFn

/-- **It fails with a dangling block** exactly when some address names no block of its function;
    it never fails otherwise, since every address names a function of the module. -/
theorem forM_resolve_eq_error_iff :
    (∃ func block, rs.forM (resolve M) = .error (.danglingBlock func block)) ↔
      ∃ r ∈ rs, ∀ F ∈ M.funcs, F.name = r.func → r.block ∉ F.blockIdents := by
  constructor
  · rintro ⟨func, block, hforM⟩
    obtain ⟨r, hr, he⟩ := Except.forM_eq_error hforM
    refine ⟨r, hr, fun F hF hFn hb => ?_⟩
    have hok := (resolve_eq_ok_iff_of_mem hnd hF hFn).mpr ⟨F, hF, hFn, hb⟩
    rw [he] at hok
    cases hok
  · rintro ⟨r, hr, hnone⟩
    -- the loop stops at the first failing address, which names a function of the module
    cases hforM : rs.forM (resolve M) with
    | ok u =>
      cases u
      obtain ⟨F, hF, hFn, hb⟩ := (forM_resolve_eq_ok_iff hnd hnamed).mp hforM r hr
      exact absurd hb (hnone F hF hFn)
    | error e =>
      obtain ⟨r', hr', he⟩ := Except.forM_eq_error hforM
      obtain ⟨F, hF, hFn⟩ := hnamed r' hr'
      have hfunc := (Module.func?_eq_some_iff hnd).mpr ⟨hF, hFn⟩
      exact ⟨F.name, r'.block.render, by rw [← resolve_eq_error hfunc he]⟩

end BlockRef

variable {m : Ast.Module} {s : Scope} {globals : List Global} {funcs Fs : List Function}
  {queue : FixupQueue}

/-- **Past numbering**, what is left of `lowerModule` is resolving the queued block addresses, in
    order, against the numbered module. -/
theorem lowerModule_of_numbered (hs : Scope.ofModule m = .ok s)
    (hitems : (s.lowerItems m).run.run {} = (.ok (globals, funcs), queue))
    (hnum : funcs.mapM Function.assignIds = .ok Fs) :
    ∃ M : Module, M.funcs = Fs ∧
      lowerModule m = (fun _ => { M with attrGroups := m.attrGroups }) <$>
        queue.pending.forM (BlockRef.resolve M) := by
  rw [lowerModule_of_items hs hitems]
  generalize hM₀ :
    ({ sourceFilename := m.sourceFilename, dataLayout := m.dataLayout,
       targetTriple := m.targetTriple, types := s.types, comdats := m.comdats, globals,
       funcs } : Module) = M₀
  have hfuncs : M₀.funcs = funcs := by rw [← hM₀]
  have hM : M₀.assignIds = .ok { M₀ with funcs := Fs } := by
    simp only [Module.assignIds, hfuncs, hnum, bind, Except.bind, pure, Except.pure]
  refine ⟨{ M₀ with funcs := Fs }, rfl, ?_⟩
  rw [hM]
  simp only [bind, Except.bind, FixupQueue.drain]
  cases queue.pending.forM (BlockRef.resolve { M₀ with funcs := Fs }) <;> rfl

/-! ## A module -/

/-- **Every block address of a module is resolved, against unique block identities.** Once the
    scope and the items of a module are checked and every function is numbered:

    * the queue holds the block addresses of the checked globals, then of the numbered functions
      (their initializers, prefixes, prologues, personalities and operands, at any depth), and
      nothing else; each names a function of the module, and function names are distinct;
    * no two blocks of a function share an identity;
    * `lowerModule` succeeds exactly when every queued address names a block of its function,
      fails with a dangling block exactly when one does not, and leaves the queue empty;
    * in a function with no load or phi of type `void`, the block a written name identifies is the
      block a branch to that name goes to. -/
theorem lowerModule_resolves_block_addresses (hs : Scope.ofModule m = .ok s)
    (hitems : (s.lowerItems m).run.run {} = (.ok (globals, funcs), queue))
    (hnum : funcs.mapM Function.assignIds = .ok Fs) :
    queue.pending = globals.flatMap Global.blockRefs ++ Fs.flatMap Function.blockRefs ∧
      (Fs.map (·.name)).Nodup ∧ (∀ r ∈ queue.pending, ∃ F ∈ Fs, F.name = r.func) ∧
      (∀ F ∈ Fs, F.blockIdents.Nodup) ∧
      ((∃ M, lowerModule m = .ok M) ↔
        ∀ r ∈ queue.pending, ∃ F ∈ Fs, F.name = r.func ∧ r.block ∈ F.blockIdents) ∧
      ((∃ func block, lowerModule m = .error (.danglingBlock func block)) ↔
        ∃ r ∈ queue.pending, ∀ F ∈ Fs, F.name = r.func → r.block ∉ F.blockIdents) ∧
      (∀ M, (queue.drain M).2.pending = []) ∧
      List.Forall₂ (fun f F => F.name = f.header.name ∧
          ∀ body l, f.body = some body → s.FirstPass f body l → ¬ F.HasVoidValue →
            ∀ nm slot, l.block nm = .ok slot → ∀ b ∈ F.blocks,
              (F.locals.ident b.label = LocalIdent.ofName nm ↔ b.label = slot))
        m.funcs Fs := by
  have hlow := Scope.lowerItems_funcs hitems
  have hnumF := Except.mapM_eq_ok_iff.mp hnum
  -- each source function, its checked function and its numbered function
  have hpair : List.Forall₂ (fun f F' => ∃ F q₁ q₂, (s.lowerFunction f).run.run q₁ = (.ok F, q₂) ∧
      F.assignIds = .ok F') m.funcs Fs :=
    forall₂_comp (fun ⟨q₁, q₂, hF⟩ hF' => ⟨_, q₁, q₂, hF, hF'⟩) hlow hnumF
  have hname : List.Forall₂ (fun f F' => F'.name = f.header.name) m.funcs Fs :=
    hpair.imp fun _ _ ⟨_, _, _, hF, hF'⟩ => Scope.numbered_name hF hF'
  obtain ⟨hnodup, hsym⟩ := Scope.ofModule_functions hs
  have hnames : (Fs.map (·.name)).Nodup := by
    rwa [← map_eq_of_forall₂ (hname.imp fun _ _ h => h.symm)]
  -- the queue: numbering keeps the block addresses of every function
  have hrefs : funcs.flatMap Function.blockRefs = Fs.flatMap Function.blockRefs := by
    rw [List.flatMap_def, List.flatMap_def,
      map_eq_of_forall₂ (hnumF.imp fun _ _ hF' => (Function.blockRefs_of_assignIds hF').symm)]
  have hqueue := Scope.lowerItems_queues hitems
  have hpending : queue.pending = globals.flatMap Global.blockRefs ++ Fs.flatMap Function.blockRefs := by
    rw [hqueue.pending, ← hrefs]
    rfl
  -- every queued address names a function symbol, hence a function of the module
  have hnamed : ∀ r ∈ queue.pending, ∃ F ∈ Fs, F.name = r.func := by
    intro r hr
    obtain ⟨ty, hty⟩ := hqueue.funcs r (by rw [hqueue.pending] at hr; exact hr)
    obtain ⟨f, hf, hfn⟩ := hsym hty
    obtain ⟨F, hF, hFn⟩ := forall₂_exists_right hname f hf
    exact ⟨F, hF, hFn.trans hfn⟩
  obtain ⟨M, hMf, hrun⟩ := lowerModule_of_numbered hs hitems hnum
  subst hMf
  refine ⟨hpending, hnames, hnamed, ?_, ?_, ?_, fun _ => rfl, ?_⟩
  · intro F' hF'
    obtain ⟨f, -, F, q₁, q₂, hF, hnumbered⟩ := forall₂_exists_left hpair F' hF'
    exact Scope.numbered_blockIdents_nodup hF hnumbered
  · rw [hrun]
    constructor
    · rintro ⟨M', hM'⟩
      obtain ⟨⟨⟩, hok, -⟩ := Except.map_eq_ok_iff.mp hM'
      exact (BlockRef.forM_resolve_eq_ok_iff hnames hnamed).mp hok
    · intro hall
      exact ⟨_, by rw [(BlockRef.forM_resolve_eq_ok_iff hnames hnamed).mpr hall]; rfl⟩
  · simp only [hrun, Except.map_eq_error_iff]
    exact BlockRef.forM_resolve_eq_error_iff hnames hnamed
  · refine hpair.imp fun f F' ⟨F, q₁, q₂, hF, hF'⟩ => ⟨Scope.numbered_name hF hF', ?_⟩
    intro body l hbody hfirst hnv nm slot hblock b hb
    exact Scope.numbered_block_ident_iff hF hF' hbody hfirst hnv hblock hb

/-- `@t = global i8* blockaddress(@f, %1)` and `define void @f() { br label %1  1: ret void }`,
read: the address of the block numbered after the unnamed entry block `%0`. -/
def numberedBlockAddress : Ast.Module :=
  { globals := [{ name := "t", contentTy := .ptr .i8, init := some (.blockAddress "f" (.number 1)) }],
    funcs := [{ header := { name := "f", ret := .void, params := [] }, metadata := [],
                body := some ⟨[⟨none, [], .br (.number 1)⟩, ⟨some (.number 1), [], .ret none⟩], []⟩ }] }

/-- Block addresses resolved at the address of a numbered block. -/
theorem numberedBlockAddress_resolves :
    ∃ s globals funcs Fs queue, Scope.ofModule numberedBlockAddress = .ok s ∧
      (s.lowerItems numberedBlockAddress).run.run {} = (.ok (globals, funcs), queue) ∧
      funcs.mapM Function.assignIds = .ok Fs ∧
      queue.pending = globals.flatMap Global.blockRefs ++ Fs.flatMap Function.blockRefs ∧
      (Fs.map (·.name)).Nodup ∧ (∀ r ∈ queue.pending, ∃ F ∈ Fs, F.name = r.func) ∧
      (∀ F ∈ Fs, F.blockIdents.Nodup) ∧
      ((∃ M, lowerModule numberedBlockAddress = .ok M) ↔
        ∀ r ∈ queue.pending, ∃ F ∈ Fs, F.name = r.func ∧ r.block ∈ F.blockIdents) ∧
      ((∃ func block, lowerModule numberedBlockAddress = .error (.danglingBlock func block)) ↔
        ∃ r ∈ queue.pending, ∀ F ∈ Fs, F.name = r.func → r.block ∉ F.blockIdents) ∧
      (∀ M, (queue.drain M).2.pending = []) ∧
      List.Forall₂ (fun f F => F.name = f.header.name ∧
          ∀ body l, f.body = some body → s.FirstPass f body l → ¬ F.HasVoidValue →
            ∀ nm slot, l.block nm = .ok slot → ∀ b ∈ F.blocks,
              (F.locals.ident b.label = LocalIdent.ofName nm ↔ b.label = slot))
        numberedBlockAddress.funcs Fs := by
  -- the scope, the items and the numbering succeed: evaluated once, by the kernel
  have hrun : (match Scope.ofModule numberedBlockAddress with
      | .ok s => match ((s.lowerItems numberedBlockAddress).run.run {}).1 with
        | .ok (_, funcs) => (funcs.mapM Function.assignIds).toBool
        | .error _ => false
      | .error _ => false) = true := by
    decide +kernel
  cases hs : Scope.ofModule numberedBlockAddress with
  | error e => simp [hs] at hrun
  | ok s =>
    simp only [hs] at hrun
    rcases hitems : (s.lowerItems numberedBlockAddress).run.run {} with
      ⟨_ | ⟨globals, funcs⟩, queue⟩
    · simp [hitems] at hrun
    · simp only [hitems] at hrun
      cases hnum : funcs.mapM Function.assignIds with
      | error e => simp [hnum, Except.toBool] at hrun
      | ok Fs =>
        exact ⟨s, globals, funcs, Fs, queue, rfl, hitems, hnum,
          lowerModule_resolves_block_addresses hs hitems hnum⟩

/-- **A `void` load breaks addresses by number.** The first pass gives the load no key, so
    `br label %0` goes to the block written `0:`, which numbering prints `%1` after giving the load
    `%0`; the address `blockaddress(@f, %0)` then finds no block. -/
theorem void_load_dangles_block_address :
    formatModule "define void @f(void* %p) \x7b\nentry:\n  load void, void* %p\n  br label %0\n0:\n  ret void\n\x7d\n" =
        .ok "define void @f(void* %p) \x7b\nentry:\n\t%0 = load void, void* %p\n\tbr label %1\n\n1:\n\tret void\n\x7d\n" ∧
      formatModule "@t = global i8* blockaddress(@f, %0)\ndefine void @f(void* %p) \x7b\nentry:\n  load void, void* %p\n  br label %0\n0:\n  ret void\n\x7d\n" =
        .error (.danglingBlock "f" "%0") := by
  decide +kernel

end LlvmAsm
