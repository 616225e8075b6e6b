import LlvmAsm.Proofs.Written.SecondPass
import LlvmAsm.Proofs.BlockAddresses

/-!
# `Proofs.Written.Names` — the written names of a numbered definition

Once a checked definition is numbered, the name each local is printed with is the key its first
pass entered it under: a named local keeps its name, and numbering gives every local with a number
key the number of that key (`Locals.Describes.numbered_keyed`), provided the definition has no load
or phi of type `void`. So the written form names every site by its original key
(`Locals.Describes.writtenKey_eq_key`), and its first pass enters the same keys.

From this, for the first pass over the written form (`Scope.declareBody_written`):

* the sites can be defined under their written names (`Locals.Describes.writtenSites`);
* the table of identities it builds is the numbered table (`Locals.Describes.table_written`);
* every name the original body resolves, its written name resolves to the same slot at a fitting
  type (`Locals.Describes.rechecks_written`).
-/

namespace LlvmAsm

theorem LocalIdent.toName_ofName (n : Ast.LocalName) : (LocalIdent.ofName n).toName = n := by
  cases n <;> rfl

/-- Relations that hold of partners hold of them as members of their lists. -/
theorem forall₂_of_mem {α β : Type} {R S : α → β → Prop} {xs : List α} {ys : List β}
    (h : List.Forall₂ R xs ys) (hS : ∀ x ∈ xs, ∀ y ∈ ys, R x y → S x y) : List.Forall₂ S xs ys :=
  List.forall₂_iff_zip.mpr ⟨h.length_eq, fun hxy =>
    hS _ (List.of_mem_zip hxy).1 _ (List.of_mem_zip hxy).2 (List.forall₂_zip h hxy)⟩

/-- A site is numbered exactly when its record has a key, on a site that is no `void` value. -/
theorem RecordFits.numbered_eq {types : TypeTable} {r : LocalRecord} {d : LocalDef}
    (hfit : RecordFits types r d) (hv : ¬ d.IsVoidValue) : d.numbered = r.key.isSome := by
  obtain ⟨slot, ty, kind⟩ := d
  have hkey := hfit.keyless
  cases kind with
  | param => cases hk : r.key <;> simp_all [LocalDef.numbered, LocalKind.isResult]
  | block => cases hk : r.key <;> simp_all [LocalDef.numbered, LocalKind.isResult]
  | result call =>
    cases call with
    | true => cases hk : r.key <;> simp_all [LocalDef.numbered, LocalKind.isResult]
    | false =>
      -- a load or phi result is not `void`, so it is keyed and numbered
      have hty : ty.isVoid = false := by
        rw [Bool.eq_false_iff]
        intro hvoid
        exact hv ⟨rfl, Ty.isVoid_eq_true_iff.mp hvoid⟩
      cases hk : r.key <;> simp_all [LocalDef.numbered, LocalKind.isResult]

namespace Locals.Describes

variable {l : Locals} {types : TypeTable} {hist : List LocalRecord} {F : Function} {t : LocalTable}
  (hd : l.Describes types hist F) (hnv : ¬ F.HasVoidValue)
  (ht : Function.numberSlots F.name F.visitOrder 0 F.locals = .ok t)

include hd

/-- The sites of a described function take the slots `0, 1, 2, …` in order. -/
theorem sites_slots : F.localDefs.map (·.slot) = List.range F.localDefs.length := by
  rw [← RecordFits.slots_eq hd.fits, hd.tracks.valid.slots, hd.fits.length_eq]

/-- Records and sites pair as members of their lists. -/
theorem fits_mem :
    List.Forall₂ (fun r d => r ∈ hist ∧ d ∈ F.localDefs ∧ RecordFits types r d) hist F.localDefs :=
  forall₂_of_mem hd.fits fun _ hr _ hd' hfit => ⟨hr, hd', hfit⟩

include hnv ht

/-- **A site's written name is its record's key.** -/
theorem writtenKey_eq_key {r : LocalRecord} {d : LocalDef} (hr : r ∈ hist)
    (hdef : d ∈ F.localDefs) (hfit : RecordFits types r d) : d.writtenKey t = r.key := by
  have hvoid : ¬ d.IsVoidValue := fun hv => hnv ⟨d, hdef, hv⟩
  unfold LocalDef.writtenKey
  rw [hfit.numbered_eq hvoid]
  cases hk : r.key with
  | none => rfl
  | some k =>
    have hident := numbered_keyed hd ht hnv hr hk
    rw [hfit.slot] at hident
    simp [LocalTable.name, hident, LocalIdent.toName_ofName]

/-- The written names of the sites are their records' keys, in order. -/
theorem writtenKeys : F.localDefs.map (·.writtenKey t) = hist.map (·.key) :=
  (map_eq_of_forall₂ (hd.fits_mem.imp fun _ _ ⟨hr, hdef, hfit⟩ =>
    (hd.writtenKey_eq_key hnv ht hr hdef hfit).symm)).symm

/-- **The sites of a numbered definition can be defined under their written names**: in order,
    under distinct names. -/
theorem writtenSites : WrittenSites t [] F.localDefs where
  slots := by rw [hd.sites_slots, List.range_eq_range']; rfl
  nodup := by
    have hkeys := congrArg (List.filterMap id) (hd.writtenKeys hnv ht)
    rw [List.filterMap_map, List.filterMap_map] at hkeys
    rw [show (fun d : LocalDef => d.writtenKey t) = id ∘ (·.writtenKey t) from rfl, hkeys]
    exact hd.tracks.valid.keys_nodup
  fresh := fun r hr => absurd hr List.not_mem_nil
  noVoid := fun d hdef hv => hnv ⟨d, hdef, hv⟩

/-- **A site's written record shows the numbered identity of its slot**: a site numbering skips
    (the `void` result of a call) is unnumbered in the numbered table too. -/
theorem writtenRecord_ident {d : LocalDef} (hdef : d ∈ F.localDefs) :
    (d.writtenRecord t).ident = t.ident d.slot := by
  unfold LocalDef.writtenRecord
  split
  · rfl
  · rename_i hn
    rw [Bool.not_eq_true] at hn
    obtain ⟨r, hr, hfit⟩ := forall₂_exists_left hd.fits d hdef
    have hkey : r.key = none := by
      have hnum := hfit.numbered_eq fun hv => hnv ⟨d, hdef, hv⟩
      rw [hn] at hnum
      exact Option.not_isSome_iff_eq_none.mp (by rw [← hnum]; decide)
    -- its record is keyless, so the table holds an unnumbered identity there
    have hident : F.locals.ident d.slot = .anon 0 := by
      have hcoh := hd.tracks.valid.coherent r hr
      unfold LocalRecord.Coherent at hcoh
      rw [hkey] at hcoh
      rw [← hfit.slot, hd.ident_slot hr, hcoh]
    -- and numbering does not visit it: no other site shares its slot
    have hnot : d.slot ∉ F.visitOrder := by
      rw [Function.visitOrder_eq]
      intro hmem
      obtain ⟨d', hd', hslot⟩ := List.mem_map.mp hmem
      obtain ⟨hd'mem, hnum⟩ := List.mem_filter.mp hd'
      have hnodup : (F.localDefs.map (·.slot)).Nodup := by
        rw [hd.sites_slots]
        exact List.nodup_range
      obtain rfl := List.inj_on_of_nodup_map hnodup hd'mem hdef hslot
      rw [hn] at hnum
      cases hnum
    rw [hd.numbered_ident ht, List.idxOf?_eq_none_iff.mpr
      (fun hm => hnot ((Function.anonSlots_sublist _ _).subset hm)), Option.elim_none, hident]

/-- **The first pass over the written form builds the numbered table.** -/
theorem table_written {l' : Locals} (hl' : l'.Tracks (F.localDefs.map (·.writtenRecord t))) :
    l'.table = t := by
  have hsize : t.size = F.localDefs.length := by
    rw [Function.numberSlots_size ht, hd.locals, hd.tracks.realizes.size, hd.fits.length_eq]
  apply Array.ext'
  rw [hl'.realizes.table, List.map_map]
  apply List.ext_getElem
  · simp [hsize]
  · intro i h₁ h₂
    have hslot : F.localDefs[i].slot = i := by
      have h := List.getElem_of_eq hd.sites_slots (by simpa using h₁)
      simpa using h
    have hi : i < t.size := by simpa using h₂
    simp only [List.getElem_map, Function.comp_apply, Array.getElem_toList]
    rw [hd.writtenRecord_ident hnv ht (List.getElem_mem _), hslot, LocalTable.ident,
      Array.getElem?_eq_getElem hi, Option.getD_some]

/-- **The written names recheck the names of the body**: a name the body resolves is the written
    name of its slot, which the first pass over the written form enters at the site's type. -/
theorem rechecks_written {l' : Locals} (hl' : l'.Tracks (F.localDefs.map (·.writtenRecord t))) :
    l.Rechecks types t l' := by
  intro name slot ty hget
  obtain ⟨r, hr, hkey, rfl, rfl⟩ := (get_eq_ok_iff hd.tracks.realizes hd.tracks.valid).mp hget
  obtain ⟨d, hdef, hfit⟩ := forall₂_exists_right hd.fits r hr
  have hwk := hd.writtenKey_eq_key hnv ht hr hdef hfit
  rw [hkey] at hwk
  -- a keyed site is numbered, and written with the name of its key
  have hname : t.name r.slot = name := by
    unfold LocalDef.writtenKey at hwk
    split at hwk
    · cases hwk
      rw [hfit.slot]
    · cases hwk
  refine ⟨d.ty, ?_, TypeTable.equivalent_symm hfit.ty.equiv, hfit.ty.label⟩
  rw [hname]
  exact (get_eq_ok_iff hl'.realizes hl'.valid).mpr
    ⟨d.writtenRecord t, List.mem_map_of_mem hdef, hwk, hfit.slot.symm, rfl⟩

end Locals.Describes

end LlvmAsm
