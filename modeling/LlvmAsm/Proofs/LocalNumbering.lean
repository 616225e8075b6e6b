import Mathlib.Control.Monad.Basic
import LlvmAsm.Proofs.Lowering.Body
import LlvmAsm.Proofs.Lowering.Stages
import LlvmAsm.Pipeline

/-!
# `Proofs.LocalNumbering` — numbering and the names the first pass entered

A checked definition is numbered twice over. While its body is checked, the first pass enters every
parameter, label and result under a key: its written name, or for an unnamed local the next number
`%N` (`Locals.define`), and every reference written `%N` is resolved through these keys. Once the
module is checked, `Function.assignIds` numbers the anonymous locals again, in its own visiting
order and with its own choice of which results take a number. The two numberings meet when they
pick the same locals:

* numbering visits, among the anonymous locals, exactly the locals the first pass entered under a
  number key, in the same order, **exactly when** the function has no load or phi of type `void`
  (`Locals.Describes.anonSlots_eq`, `Locals.Describes.anonSlots_ne`): such a result takes no key,
  since nothing can refer to it, but numbering gives it a number;
* when they meet, numbering gives the local of every key `%N` the number `N`, so each reference
  `%N` names the local printed `%N`, and it fails exactly when a local written `%N` has its key at
  a position other than `N` among the number keys (`Locals.Describes.numbering`).

`lowerModule_numbers_locals` states this for every function of a module. A `void` load shifts every
later number (`void_load_shifts_numbers`), and the number it is printed with cannot be read back
(`void_load_text_not_fixed`).
-/

namespace LlvmAsm

/-! ## The number keys of the first pass -/

/-- The locals the first pass entered under a number key `%N`, in the order they were defined,
each with `N` and its slot. -/
def Locals.numberEntries (l : Locals) : List (Nat × Nat) :=
  l.entries.reverse.filterMap fun e => match e.1 with
    | .number n => some (n, e.2.1)
    | .name _ => none

/-- **A misplaced number**: a local written `%N` whose key is at a position `j ≠ N` among the
number keys. -/
def Locals.Misplaced (l : Locals) : Prop :=
  ∃ j N slot, l.numberEntries[j]? = some (N, slot) ∧ l.table.ident slot = .anon N ∧ N ≠ j

/-- `l` is the table of locals the first pass over the body of `f` builds. -/
def Scope.FirstPass (s : Scope) (f : Ast.Function) (body : Ast.Body) (l : Locals) : Prop :=
  ∃ sig slots ds, s.lowerSignature f.header = .ok sig ∧
    s.declareBody f.header sig body.blocks = .ok (slots, ds, l)

theorem Scope.FirstPass.unique {s : Scope} {f : Ast.Function} {body : Ast.Body} {l₁ l₂ : Locals}
    (h₁ : s.FirstPass f body l₁) (h₂ : s.FirstPass f body l₂) : l₁ = l₂ := by
  obtain ⟨sig₁, _, _, hsig₁, hd₁⟩ := h₁
  obtain ⟨sig₂, _, _, hsig₂, hd₂⟩ := h₂
  rw [hsig₁, Except.ok.injEq] at hsig₂
  subst hsig₂
  rw [hd₁, Except.ok.injEq] at hd₂
  cases hd₂
  rfl

theorem numberKeys_mem {hist : List LocalRecord} {j k : Nat} {r : LocalRecord}
    (h : (numberKeys hist)[j]? = some (r, k)) : r ∈ hist ∧ r.number? = some k := by
  obtain ⟨r', hr', hp⟩ := List.mem_filterMap.mp (List.mem_of_getElem? h)
  obtain ⟨k', hk', hrk⟩ := Option.map_eq_some_iff.mp hp
  cases hrk
  exact ⟨hr', hk'⟩

theorem numberKeys_map_slot (hist : List LocalRecord) :
    (numberKeys hist).map (·.1.slot) = (hist.filter (·.number?.isSome)).map (·.slot) := by
  induction hist with
  | nil => rfl
  | cons r rest ih =>
    simp only [numberKeys, List.filterMap_cons, List.filter_cons] at ih ⊢
    cases r.number? <;> simp [ih]

/-- The number entries of a table are the number keys of the history it realizes. -/
theorem Locals.Realizes.numberEntries_eq {l : Locals} {hist : List LocalRecord}
    (h : l.Realizes hist) : l.numberEntries = (numberKeys hist).map fun p => (p.2, p.1.slot) := by
  rw [numberEntries, h.entries, List.reverse_reverse, numberKeys, List.map_filterMap,
    List.filterMap_filterMap]
  apply List.filterMap_congr
  rintro ⟨slot, ident, key, ty⟩ -
  cases key with
  | none => rfl
  | some k => cases k <;> rfl

/-! ## A site and its record -/

section Pair

variable {types : TypeTable} {t : LocalTable} {r : LocalRecord} {d : LocalDef}

/-- **A site and its record agree** unless the site is a load or phi of type `void`: numbering
    visits the site as anonymous exactly when the record has a number key. -/
theorem RecordFits.visited_eq (hfit : RecordFits types r d) (hcoh : r.Coherent)
    (hident : t.ident d.slot = r.ident) (hv : ¬ d.IsVoidValue) :
    (!(t.ident d.slot).isNamed && d.numbered) = r.number?.isSome := by
  rw [hident]
  unfold LocalRecord.Coherent at hcoh
  cases hkey : r.key with
  | none =>
    -- without a key the site is a `void` result, here a call's, which numbering skips
    obtain ⟨hres, hvoid⟩ := hfit.keyless.mp hkey
    have hnum : d.numbered = false := by
      refine LocalDef.numbered_eq_false_iff.mpr ⟨?_, hvoid⟩
      cases hk : d.kind with
      | result call =>
        cases call with
        | false => exact absurd ⟨hk, Ty.isVoid_eq_true_iff.mp hvoid⟩ hv
        | true => rfl
      | _ => rw [hk] at hres; cases hres
    simp [hnum, LocalRecord.number?, hkey]
  | some key =>
    -- a keyed record is no `void` result, so numbering visits its site
    have hnum : d.numbered = true := by
      cases hn : d.numbered with
      | true => rfl
      | false =>
        obtain ⟨hk, hvoid⟩ := LocalDef.numbered_eq_false_iff.mp hn
        have hnone := hfit.keyless.mpr ⟨by rw [hk]; rfl, hvoid⟩
        rw [hkey] at hnone
        cases hnone
    rw [hkey] at hcoh
    cases key with
    | name n => simp [hcoh, LocalIdent.isNamed, LocalRecord.number?, hkey]
    | number k =>
      rcases hcoh with h | h <;> simp [h, hnum, LocalIdent.isNamed, LocalRecord.number?, hkey]

/-- A load or phi of type `void` has no key, yet numbering visits it as anonymous. -/
theorem RecordFits.visited_of_isVoidValue (hfit : RecordFits types r d) (hcoh : r.Coherent)
    (hident : t.ident d.slot = r.ident) (hv : d.IsVoidValue) :
    (!(t.ident d.slot).isNamed && d.numbered) = true ∧ r.number? = none := by
  obtain ⟨hk, hty⟩ := hv
  have hkey : r.key = none := hfit.keyless.mpr ⟨by rw [hk]; rfl, by rw [hty]; rfl⟩
  unfold LocalRecord.Coherent at hcoh
  rw [hkey] at hcoh
  rw [hident, hcoh]
  simp [LocalDef.numbered, hk, LocalIdent.isNamed, LocalRecord.number?, hkey]

end Pair

/-- Lists paired by a relation have equal filtered images when paired members pass together and
have one image. -/
theorem map_filter_eq_of_forall₂ {α β γ : Type} {R : α → β → Prop} {p : α → Bool} {q : β → Bool}
    {f : α → γ} {g : β → γ} :
    ∀ {xs : List α} {ys : List β}, List.Forall₂ R xs ys →
      (∀ x ∈ xs, ∀ y ∈ ys, R x y → p x = q y ∧ f x = g y) →
        (xs.filter p).map f = (ys.filter q).map g
  | _, _, .nil, _ => rfl
  | x :: xs, y :: ys, .cons hxy hrest, h => by
    obtain ⟨hpq, hfg⟩ := h x List.mem_cons_self y List.mem_cons_self hxy
    have ih := map_filter_eq_of_forall₂ hrest fun x' hx' y' hy' =>
      h x' (List.mem_cons_of_mem _ hx') y' (List.mem_cons_of_mem _ hy')
    rw [List.filter_cons, List.filter_cons, hpq]
    by_cases hq : q y = true
    · rw [if_pos hq, if_pos hq, List.map_cons, List.map_cons, hfg, ih]
    · rw [if_neg hq, if_neg hq]
      exact ih

/-- The anonymous locals numbering visits are the sites that numbering visits and that are
anonymous, in text order. -/
theorem Function.anonSlots_visitOrder (F : Function) :
    Function.anonSlots F.locals F.visitOrder =
      (F.localDefs.filter fun d => !(F.locals.ident d.slot).isNamed && d.numbered).map (·.slot) := by
  rw [Function.anonSlots, Function.visitOrder_eq, List.filter_map, List.filter_filter]
  rfl

/-! ## A checked function and its first pass -/

/-- **The first pass describes a checked function**: its table of locals tracks a history whose
records fit the function's sites one to one, in order, and the function's table of identities is
that table. -/
structure Locals.Describes (l : Locals) (types : TypeTable) (hist : List LocalRecord)
    (F : Function) : Prop where
  tracks : l.Tracks hist
  fits : List.Forall₂ (RecordFits types) hist F.localDefs
  locals : F.locals = l.table

namespace Locals.Describes

variable {l : Locals} {types : TypeTable} {hist : List LocalRecord} {F : Function}

/-- A record's slot holds the record's identity. -/
theorem ident_slot (hd : l.Describes types hist F) {r : LocalRecord} (hr : r ∈ hist) :
    F.locals.ident r.slot = r.ident := by
  obtain ⟨i, hi, rfl⟩ := List.getElem_of_mem hr
  have hslot : hist[i].slot = i := by
    have h := congrArg (·[i]?) hd.tracks.valid.slots
    simpa [hi] using h
  rw [hslot, LocalTable.ident, hd.locals, ← Array.getElem?_toList, hd.tracks.realizes.table]
  simp [hi]

/-- Two records at one slot are one record. -/
theorem slot_inj (hd : l.Describes types hist F) {r₁ r₂ : LocalRecord} (h₁ : r₁ ∈ hist)
    (h₂ : r₂ ∈ hist) (h : r₁.slot = r₂.slot) : r₁ = r₂ := by
  have hnodup : (hist.map (·.slot)).Nodup := by
    rw [hd.tracks.valid.slots]
    exact List.nodup_range
  exact List.inj_on_of_nodup_map hnodup h₁ h₂ h

/-- Numbering visits slots of the table, each at most once. -/
theorem visitOrder_nodup (hd : l.Describes types hist F) :
    F.visitOrder.Nodup ∧ ∀ s ∈ F.visitOrder, s < F.locals.size := by
  have hsub : F.visitOrder.Sublist (List.range F.locals.size) := by
    rw [Function.visitOrder_eq, hd.locals, hd.tracks.realizes.size, ← hd.tracks.valid.slots,
      RecordFits.slots_eq hd.fits]
    exact List.filter_sublist.map _
  exact ⟨hsub.nodup List.nodup_range, fun s hs => List.mem_range.mp (hsub.subset hs)⟩

theorem anonSlots_nodup (hd : l.Describes types hist F) :
    (Function.anonSlots F.locals F.visitOrder).Nodup :=
  (Function.anonSlots_sublist _ _).nodup hd.visitOrder_nodup.1

/-- **The two orders agree** on a function with no load or phi of type `void`: numbering visits,
    among the anonymous locals, exactly the locals with a number key, in the order of definition. -/
theorem anonSlots_eq (hd : l.Describes types hist F) (hnv : ¬ F.HasVoidValue) :
    Function.anonSlots F.locals F.visitOrder = (numberKeys hist).map (·.1.slot) := by
  rw [Function.anonSlots_visitOrder, numberKeys_map_slot]
  symm
  apply map_filter_eq_of_forall₂ hd.fits
  intro r hr d hdm hfit
  have hident : F.locals.ident d.slot = r.ident := hfit.slot ▸ hd.ident_slot hr
  have hv : ¬ d.IsVoidValue := fun hv => hnv ⟨d, hdm, hv⟩
  exact ⟨(hfit.visited_eq (hd.tracks.valid.coherent r hr) hident hv).symm, hfit.slot⟩

/-- **A load or phi of type `void` breaks the agreement**: numbering visits its slot, which no
    number key names. -/
theorem anonSlots_ne (hd : l.Describes types hist F) (hv : F.HasVoidValue) :
    Function.anonSlots F.locals F.visitOrder ≠ (numberKeys hist).map (·.1.slot) := by
  obtain ⟨d, hdm, hvd⟩ := hv
  obtain ⟨r, hr, hfit⟩ := forall₂_exists_left hd.fits d hdm
  have hident : F.locals.ident d.slot = r.ident := hfit.slot ▸ hd.ident_slot hr
  obtain ⟨hvisit, hnone⟩ := hfit.visited_of_isVoidValue (hd.tracks.valid.coherent r hr) hident hvd
  intro heq
  have hin : d.slot ∈ Function.anonSlots F.locals F.visitOrder := by
    rw [Function.anonSlots_visitOrder]
    exact List.mem_map_of_mem (List.mem_filter.mpr ⟨hdm, hvisit⟩)
  -- the only record at that slot is the site's own, which has no number key
  rw [heq, numberKeys_map_slot] at hin
  obtain ⟨r', hr', hslot⟩ := List.mem_map.mp hin
  obtain ⟨hr'm, hnum⟩ := List.mem_filter.mp hr'
  have hsame := hd.slot_inj hr'm hr (hslot.trans hfit.slot.symm)
  subst hsame
  rw [hnone] at hnum
  cases hnum

variable (hagree : Function.anonSlots F.locals F.visitOrder = (numberKeys hist).map (·.1.slot))
include hagree

/-- Under the agreement, the `j`-th anonymous local numbering visits is the local of the `j`-th
number key. -/
theorem anonSlots_getElem? {j k : Nat} {r : LocalRecord} (h : (numberKeys hist)[j]? = some (r, k)) :
    (Function.anonSlots F.locals F.visitOrder)[j]? = some r.slot := by
  rw [hagree, List.getElem?_map, h]
  rfl

/-- When the orders agree and every anonymous local numbering visits is unnumbered or carries its
position, every number key is its position. -/
theorem keys_eq_positions (hd : l.Describes types hist F)
    (hall : ∀ j s, (Function.anonSlots F.locals F.visitOrder)[j]? = some s →
      F.locals.ident s = .anon 0 ∨ F.locals.ident s = .anon (0 + j)) :
    ∀ (j : Nat) (r : LocalRecord) (k : Nat), (numberKeys hist)[j]? = some (r, k) → k = j := by
  have hpos : ∀ (j : Nat) (r : LocalRecord) (k : Nat), (numberKeys hist)[j]? = some (r, k) →
      r.ident = .anon 0 ∨ r.ident = .anon j := by
    intro j r k h
    have hj := hall j r.slot (anonSlots_getElem? hagree h)
    rwa [hd.ident_slot (numberKeys_mem h).1, Nat.zero_add] at hj
  exact (hd.tracks.valid.number_eq_position hpos).1

/-- **What numbering leaves**: when the orders agree and numbering succeeds, the local of each
    number key `%k` is numbered `k`. -/
theorem numbered_key (hd : l.Describes types hist F) {t : LocalTable}
    (hok : Function.numberSlots F.name F.visitOrder 0 F.locals = .ok t) {j k : Nat}
    {r : LocalRecord} (h : (numberKeys hist)[j]? = some (r, k)) : t.ident r.slot = .anon k := by
  obtain ⟨hnodup, hlt⟩ := hd.visitOrder_nodup
  have hkj := keys_eq_positions hagree hd ((Function.numberSlots_ok_iff hnodup
    (Function.numberSlots_fits hok (Nat.zero_le _))).mp ⟨t, hok⟩) j r k h
  have hidx : (Function.anonSlots F.locals F.visitOrder).idxOf? r.slot = some j :=
    Function.idxOf?_eq_some_of_getElem? hd.anonSlots_nodup (anonSlots_getElem? hagree h)
  rw [Function.numberSlots_ident hnodup hlt hok r.slot, hidx, hkj]
  simp

/-- **When numbering fails**: when the orders agree and the numbers suffice, exactly when a local
    written `%k` has its key at a position `j ≠ k`. -/
theorem numberSlots_fails_iff (hd : l.Describes types hist F)
    (hfit : (Function.anonSlots F.locals F.visitOrder).length ≤ maxLocalId) :
    (¬ ∃ t, Function.numberSlots F.name F.visitOrder 0 F.locals = .ok t) ↔
      ∃ (j : Nat) (r : LocalRecord) (k : Nat),
        (numberKeys hist)[j]? = some (r, k) ∧ r.ident = .anon k ∧ k ≠ j := by
  obtain ⟨hnodup, -⟩ := hd.visitOrder_nodup
  rw [Function.numberSlots_ok_iff hnodup (by simpa using hfit)]
  constructor
  · intro hfail
    -- some anonymous local carries a number that is neither `0` nor its position
    obtain ⟨j, s, hjs, h0, hj⟩ : ∃ j s, (Function.anonSlots F.locals F.visitOrder)[j]? = some s ∧
        F.locals.ident s ≠ .anon 0 ∧ F.locals.ident s ≠ .anon (0 + j) := by
      simpa [not_or] using hfail
    rw [hagree, List.getElem?_map, Option.map_eq_some_iff] at hjs
    obtain ⟨⟨r, k⟩, hrk, rfl⟩ := hjs
    obtain ⟨hr, hnum⟩ := numberKeys_mem hrk
    rw [hd.ident_slot hr] at h0 hj
    -- the local of a number key is unnumbered or written with its key
    have hcoh := hd.tracks.valid.coherent r hr
    unfold LocalRecord.Coherent at hcoh
    rw [LocalRecord.number?_eq_some.mp hnum] at hcoh
    rcases hcoh with hk | hk
    · refine ⟨j, r, k, hrk, hk, fun hkj => hj ?_⟩
      rw [hk, hkj, Nat.zero_add]
    · exact absurd hk h0
  · rintro ⟨j, r, k, hrk, -, hkj⟩ hall
    exact hkj (keys_eq_positions hagree hd hall j r k hrk)

omit hagree

theorem numberEntries_getElem? (hd : l.Describes types hist F) {j N slot : Nat} :
    l.numberEntries[j]? = some (N, slot) ↔
      ∃ r, (numberKeys hist)[j]? = some (r, N) ∧ r.slot = slot := by
  rw [hd.tracks.realizes.numberEntries_eq, List.getElem?_map, Option.map_eq_some_iff]
  constructor
  · rintro ⟨⟨r, k⟩, h, he⟩
    simp only [Prod.mk.injEq] at he
    obtain ⟨rfl, rfl⟩ := he
    exact ⟨r, h, rfl⟩
  · rintro ⟨r, h, rfl⟩
    exact ⟨(r, N), h, rfl⟩

theorem numberEntries_slots (hd : l.Describes types hist F) :
    l.numberEntries.map (·.2) = (numberKeys hist).map (·.1.slot) := by
  rw [hd.tracks.realizes.numberEntries_eq, List.map_map]
  rfl

/-- **Numbering agrees with the first pass** on a checked definition exactly when it has no load
    or phi of type `void`; then numbering gives every reference `%N` the number `N`, and fails
    exactly at a misplaced `%N` or when there are more number keys than 32-bit numbers. -/
theorem numbering (hd : l.Describes types hist F) (hblocks : F.blocks ≠ []) :
    (Function.anonSlots F.locals F.visitOrder = l.numberEntries.map (·.2) ↔ ¬ F.HasVoidValue) ∧
      (¬ F.HasVoidValue →
        (∀ F', F.assignIds = .ok F' → ∀ N slot ty, l.get (.number N) = .ok (slot, ty) →
          F'.locals.ident slot = .anon N) ∧
        ((∃ e, F.assignIds = .error e) ↔ l.Misplaced ∨ maxLocalId < l.numberEntries.length)) := by
  rw [hd.numberEntries_slots]
  refine ⟨⟨fun hagree hv => hd.anonSlots_ne hv hagree, hd.anonSlots_eq⟩, fun hnv => ?_⟩
  have hagree := hd.anonSlots_eq hnv
  have hcount : (Function.anonSlots F.locals F.visitOrder).length = l.numberEntries.length := by
    rw [hagree, List.length_map, hd.tracks.realizes.numberEntries_eq, List.length_map]
  refine ⟨?_, ?_⟩
  · intro F' hF' N slot ty hget
    obtain ⟨t, ht, rfl⟩ := (Function.assignIds_eq_ok_iff hblocks).mp hF'
    obtain ⟨r, hr, hkey, rfl, -⟩ := (get_eq_ok_iff hd.tracks.realizes hd.tracks.valid).mp hget
    -- the reference's record is one of the number keys
    have hmem : (r, N) ∈ numberKeys hist :=
      List.mem_filterMap.mpr ⟨r, hr, by simp [LocalRecord.number?, hkey]⟩
    obtain ⟨j, hj⟩ := List.mem_iff_getElem?.mp hmem
    exact numbered_key hagree hd ht hj
  -- numbering fails exactly when it does not succeed
  have herr : (∃ e, F.assignIds = .error e) ↔
      ¬ ∃ t, Function.numberSlots F.name F.visitOrder 0 F.locals = .ok t := by
    constructor
    · rintro ⟨e, he⟩ ⟨t, ht⟩
      rw [Function.assignIds_eq_error_iff hblocks, ht] at he
      cases he
    · intro hfail
      cases hn : Function.numberSlots F.name F.visitOrder 0 F.locals with
      | ok t => exact absurd ⟨t, hn⟩ hfail
      | error e => exact ⟨e, (Function.assignIds_eq_error_iff hblocks).mpr hn⟩
  rw [herr]
  by_cases hfit : (Function.anonSlots F.locals F.visitOrder).length ≤ maxLocalId
  · -- with numbers enough, numbering fails exactly at a misplaced `%N`
    rw [numberSlots_fails_iff hagree hd hfit]
    constructor
    · rintro ⟨j, r, k, hrk, hk, hkj⟩
      refine .inl ⟨j, k, r.slot, hd.numberEntries_getElem?.mpr ⟨r, hrk, rfl⟩, ?_, hkj⟩
      rw [← hd.locals, hd.ident_slot (numberKeys_mem hrk).1, hk]
    · rintro (⟨j, N, slot, hj, hident, hNj⟩ | hover)
      · obtain ⟨r, hrk, rfl⟩ := hd.numberEntries_getElem?.mp hj
        have hk : r.ident = .anon N := by
          rw [← hd.ident_slot (numberKeys_mem hrk).1, hd.locals]
          exact hident
        exact ⟨j, r, N, hrk, hk, hNj⟩
      · omega
  · -- with more keys than numbers, a walk that succeeded would have had numbers enough
    have hnot : ¬ ∃ t, Function.numberSlots F.name F.visitOrder 0 F.locals = .ok t := by
      rintro ⟨t, ht⟩
      exact hfit (by simpa using Function.numberSlots_fits ht (Nat.zero_le _))
    exact ⟨fun _ => .inr (by omega), fun _ => hnot⟩

end Locals.Describes

/-- **A checked definition is described by the first pass over its body.** -/
theorem Scope.lowerFunction_describes {s : Scope} {f : Ast.Function} {body : Ast.Body}
    {F : Function} {q q' : FixupQueue} (h : (s.lowerFunction f).run.run q = (.ok F, q'))
    (hbody : f.body = some body) :
    ∃ l hist, s.FirstPass f body l ∧ l.Describes s.types hist F ∧
      F.blocks.length = body.blocks.length := by
  obtain ⟨sig, slots, ds, l, hist, hsig, hdecl, ht, hlocals, hfit, -, -, hlen⟩ :=
    lowerFunctionIn_sim (lowerFunctionIn_of_lowerFunction h) hbody
  exact ⟨l, hist, ⟨sig, slots, ds, hsig, hdecl⟩, ⟨ht, hfit, hlocals⟩, hlen⟩

/-! ## Every function of a module -/

/-- **Numbering agrees with the first pass, function by function.** For each definition of a
    module that its scope checks: numbering visits, among its anonymous locals, exactly the locals
    the first pass entered under a number key, in order, exactly when it has no load or phi of
    type `void`; and then numbering gives every reference `%N` the number `N`, and fails exactly
    when a local written `%N` has its key at a position other than `N` or there are more keys than
    32-bit numbers. Once the items of the module are checked, the checked module's functions are
    the numbered ones, and when no function has a load or phi of type `void` or more anonymous
    locals than 32-bit numbers, `lowerModule` reports an out-of-sequence local number exactly when
    some definition has a misplaced `%N`. -/
theorem lowerModule_numbers_locals {m : Ast.Module} {s : Scope} (hs : Scope.ofModule m = .ok s) :
    (∀ f ∈ m.funcs, ∀ body, f.body = some body → body.blocks ≠ [] →
      ∀ F q q', (s.lowerFunction f).run.run q = (.ok F, q') → ∃ l, s.FirstPass f body l ∧
        (Function.anonSlots F.locals F.visitOrder = l.numberEntries.map (·.2) ↔
          ¬ F.HasVoidValue) ∧
        (¬ F.HasVoidValue →
          (∀ F', F.assignIds = .ok F' → ∀ N slot ty, l.get (.number N) = .ok (slot, ty) →
            F'.locals.ident slot = .anon N) ∧
          ((∃ e, F.assignIds = .error e) ↔ l.Misplaced ∨ maxLocalId < l.numberEntries.length))) ∧
    ∀ globals funcs queue, (s.lowerItems m).run.run {} = (.ok (globals, funcs), queue) →
      (∀ M, lowerModule m = .ok M →
        List.Forall₂ (fun F F' => F.assignIds = .ok F') funcs M.funcs) ∧
      ((∀ f ∈ m.funcs, ∀ body, f.body = some body → body.blocks ≠ []) →
        (∀ F ∈ funcs, ¬ F.HasVoidValue ∧
          (Function.anonSlots F.locals F.visitOrder).length ≤ maxLocalId) →
        ((∃ func expected got, lowerModule m = .error (.invalidLocalId func expected got)) ↔
          ∃ f ∈ m.funcs, ∃ body l, f.body = some body ∧ s.FirstPass f body l ∧ l.Misplaced)) := by
  -- a checked definition is described by the first pass over its body, and has blocks
  have hdef : ∀ f body F q q', f.body = some body → body.blocks ≠ [] →
      (s.lowerFunction f).run.run q = (.ok F, q') →
      ∃ l hist, s.FirstPass f body l ∧ l.Describes s.types hist F ∧ F.blocks ≠ [] := by
    intro f body F q q' hbody hne hF
    obtain ⟨l, hist, hfirst, hd, hlen⟩ := Scope.lowerFunction_describes hF hbody
    refine ⟨l, hist, hfirst, hd, fun hnil => hne ?_⟩
    rw [← List.length_eq_zero_iff, ← hlen, hnil, List.length_nil]
  refine ⟨fun f _ body hbody hne F q q' hF => ?_, fun globals funcs queue hitems =>
    ⟨fun M hM => lowerModule_funcs hs hitems hM, fun hdefs hnv => ?_⟩⟩
  · obtain ⟨l, hist, hfirst, hd, hblocks⟩ := hdef f body F q q' hbody hne hF
    exact ⟨l, hfirst, hd.numbering hblocks⟩
  have hpair := Scope.lowerItems_funcs hitems
  rw [lowerModule_invalidLocalId_iff hs hitems fun F hF => (hnv F hF).2]
  constructor
  · rintro ⟨F, hF, e, he⟩
    obtain ⟨f, hf, q₁, q₂, hlow⟩ := forall₂_exists_left hpair F hF
    cases hbody : f.body with
    | none =>
      -- a declaration is left as it is, so its numbering does not fail
      have hblocks := Scope.lowerFunction_blocks_of_declaration hlow hbody
      have hok : F.assignIds = .ok F := by
        simp [Function.assignIds, Function.isDeclaration, hblocks]
      rw [hok] at he
      cases he
    | some body =>
      obtain ⟨l, hist, hfirst, hd, hne⟩ := hdef f body F q₁ q₂ hbody (hdefs f hf body hbody) hlow
      obtain ⟨hnvF, hfit⟩ := hnv F hF
      -- the keys are the anonymous locals numbering visits, and those fit
      have hcount := congrArg List.length ((hd.numbering hne).1.mpr hnvF)
      rw [List.length_map] at hcount
      rcases ((hd.numbering hne).2 hnvF).2.mp ⟨e, he⟩ with hmis | hover
      · exact ⟨f, hf, body, l, hbody, hfirst, hmis⟩
      · omega
  · rintro ⟨f, hf, body, l, hbody, hfirst, hmis⟩
    obtain ⟨F, hF, q₁, q₂, hlow⟩ := forall₂_exists_right hpair f hf
    obtain ⟨l', hist, hfirst', hd, hne⟩ := hdef f body F q₁ q₂ hbody (hdefs f hf body hbody) hlow
    obtain rfl := hfirst'.unique hfirst
    exact ⟨F, hF, ((hd.numbering hne).2 (hnv F hF).1).2.mpr (.inl hmis)⟩

/-- `define i32 @f(i32) { %2 = add i32 %0, 1  ret i32 %2 }`, read: a parameter and a label numbered
implicitly (`%0`, `%1`), then a result written `%2`. -/
def implicitThenExplicit : Ast.Module :=
  { funcs := [{ header := { name := "f", ret := .int 32, params := [⟨.int 32, [], none⟩] },
                metadata := [],
                body := some ⟨[⟨none, [⟨some (.number 2), .binary .add ⟨.int 32, .localRef (.number 0)⟩
                  (.const (.int "1"))⟩], .ret (some ⟨.int 32, .localRef (.number 2)⟩)⟩], []⟩ }] }

/-- Numbering and the first pass at a definition mixing implicit and written numbers: its items
    are checked, and an out-of-sequence number is reported exactly when one is misplaced. -/
theorem implicitThenExplicit_numbers_locals :
    ∃ s globals funcs queue, Scope.ofModule implicitThenExplicit = .ok s ∧
      (s.lowerItems implicitThenExplicit).run.run {} = (.ok (globals, funcs), queue) ∧
      (∀ f ∈ implicitThenExplicit.funcs, ∀ body, f.body = some body → body.blocks ≠ []) ∧
      ((∀ F ∈ funcs, ¬ F.HasVoidValue ∧
          (Function.anonSlots F.locals F.visitOrder).length ≤ maxLocalId) →
        ((∃ func expected got,
            lowerModule implicitThenExplicit = .error (.invalidLocalId func expected got)) ↔
          ∃ f ∈ implicitThenExplicit.funcs, ∃ body l, f.body = some body ∧ s.FirstPass f body l ∧
            l.Misplaced)) := by
  have hdefs : ∀ f ∈ implicitThenExplicit.funcs, ∀ body, f.body = some body → body.blocks ≠ [] := by
    intro f hf body hbody
    simp only [implicitThenExplicit, List.mem_singleton] at hf
    subst hf
    cases hbody
    simp
  -- the scope and the items are checked: evaluated once, by the kernel
  have hrun : (match Scope.ofModule implicitThenExplicit with
      | .ok s => ((s.lowerItems implicitThenExplicit).run.run {}).1.toBool
      | .error _ => false) = true := by
    decide +kernel
  cases hs : Scope.ofModule implicitThenExplicit with
  | error e => simp [hs] at hrun
  | ok s =>
    simp only [hs] at hrun
    rcases hitems : (s.lowerItems implicitThenExplicit).run.run {} with ⟨_ | ⟨globals, funcs⟩, queue⟩
    · simp [hitems, Except.toBool] at hrun
    · exact ⟨s, globals, funcs, queue, rfl, hitems, hdefs,
        ((lowerModule_numbers_locals hs).2 globals funcs queue hitems).2 hdefs⟩

/-- **A `void` load shifts the numbers.** The first pass gives the load no key, so the local written
    `%1` has its key at position `1` among the number keys, after the label's `%0`; numbering gives
    the load the number `1` and then finds the local written `%1` at position `2`. -/
theorem void_load_shifts_numbers :
    checkModule "define void @f(void* %p) \x7b\n  load void, void* %p\n  %1 = add i32 1, 2\n  ret void\n\x7d\n" =
      .error (.invalidLocalId "f" 2 1) := by
  decide +kernel

/-- **The number of a `void` load cannot be read back.** The canonical text of a function with a
    `void` load writes the load with the number numbering gave it, and reading that text again
    refuses a named `void` result. -/
theorem void_load_text_not_fixed :
    formatModule "define void @f(void* %p) \x7b\n  load void, void* %p\n  ret void\n\x7d\n" =
        .ok "define void @f(void* %p) \x7b\n0:\n\t%1 = load void, void* %p\n\tret void\n\x7d\n" ∧
      formatModule "define void @f(void* %p) \x7b\n0:\n\t%1 = load void, void* %p\n\tret void\n\x7d\n" =
        .error (.inFunction "f" (.typeMismatch "definition of %1" "non-void result" "void")) := by
  decide +kernel

end LlvmAsm
