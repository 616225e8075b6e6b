import Mathlib.Data.List.Induction
import Mathlib.Data.List.Nodup
import LlvmAsm.Proofs.Lowering.Run

/-!
# `Proofs.Lowering.History` — the locals of a body, in the order they are defined

The first pass over a function body (`Locals.define`, called for every parameter, label and result)
is described here by its *history*: one `LocalRecord` per definition, in order, giving the slot the
local took, the identity it was given, the key it can be found under (none for a `void` result) and
its type. `Locals.Realizes l hist` says that the table, the keys and the next implicit number of
`l` are exactly those the history determines, and `LocalHistory hist` that each record is what
defining a local after the records before it gives (`LocalRecord.ofDefine`).

Main statements:

* `Locals.define_realizes` — one definition appends its record (the step lemma);
* `Locals.get_eq_ok_iff` — a written name resolves to the record with that key;
* `LocalHistory.number_eq_position` — when each anonymous local is unnumbered or carries its
  position among the locals with number keys, every number key *is* that position: implicit
  numbering and explicit `%N` agree.
-/

namespace LlvmAsm

/-- What defining one local records: its slot, the identity it starts with, the key it is found
under (none for a `void` result) and its type. -/
structure LocalRecord where
  slot : Nat
  ident : LocalIdent
  key : Option Ast.LocalName
  ty : Ty

namespace LocalRecord

/-- The key table entry of a record, if it has a key. -/
def entry (r : LocalRecord) : Option (Ast.LocalName × Nat × Ty) := r.key.map fun k => (k, r.slot, r.ty)

/-- The number key of a record, if it has one. -/
def number? (r : LocalRecord) : Option Nat :=
  match r.key with
  | some (.number k) => some k
  | _ => none

end LocalRecord

/-- The next implicit local number after the records of `hist`: one past the last number key,
at most `maxLocalId`. -/
def nextIdAfter (hist : List LocalRecord) : Nat :=
  hist.foldl (fun n r => match r.number? with
    | some k => min (k + 1) maxLocalId
    | none => n) 0

/-- The record of defining a local after `hist` (`Locals.define`): the next slot, the identity
written (`%0` until numbered when unnamed), the written key, or the next implicit number for an
unnamed local that is numbered. -/
def LocalRecord.ofDefine (hist : List LocalRecord) (name : Option Ast.LocalName) (ty : Ty)
    (numbered : Bool) : LocalRecord where
  slot := hist.length
  ident := (name.map LocalIdent.ofName).getD (.anon 0)
  key := match name with
    | some n => some n
    | none => if numbered then some (.number (nextIdAfter hist)) else none
  ty := ty

/-- What `Locals.define` checks before it defines: the key is new, and an unnamed numbered local
still has a number left. -/
structure DefineOk (hist : List LocalRecord) (name : Option Ast.LocalName) (numbered : Bool) : Prop where
  fresh : ∀ k r, (match name with
    | some n => some n
    | none => if numbered then some (.number (nextIdAfter hist)) else none) = some k →
      r ∈ hist → r.key ≠ some k
  room : name = none → numbered = true → nextIdAfter hist ≠ maxLocalId

/-- Histories that defining locals one after the other produces. -/
inductive LocalHistory : List LocalRecord → Prop
  | nil : LocalHistory []
  | define {hist : List LocalRecord} {name : Option Ast.LocalName} (ty : Ty) {numbered : Bool} :
      LocalHistory hist → DefineOk hist name numbered →
      LocalHistory (hist ++ [LocalRecord.ofDefine hist name ty numbered])

/-- **A table of locals realizes a history**: its identities are the records' identities, its keys
are the records' entries (the latest first), and its next number follows the records. -/
structure Locals.Realizes (l : Locals) (hist : List LocalRecord) : Prop where
  table : l.table.toList = hist.map (·.ident)
  entries : l.entries = (hist.filterMap (·.entry)).reverse
  nextId : l.nextId = nextIdAfter hist

theorem nextIdAfter_append (hist : List LocalRecord) (r : LocalRecord) :
    nextIdAfter (hist ++ [r]) = match r.number? with
      | some k => min (k + 1) maxLocalId
      | none => nextIdAfter hist := by
  simp [nextIdAfter, List.foldl_append]

theorem nextIdAfter_le (hist : List LocalRecord) : nextIdAfter hist ≤ maxLocalId := by
  induction hist using List.reverseRecOn with
  | nil => simp [nextIdAfter]
  | append_singleton hist r ih =>
    rw [nextIdAfter_append]
    split
    · exact Nat.min_le_right _ _
    · exact ih

theorem Locals.realizes_empty (func : String) : ({ func } : Locals).Realizes [] :=
  ⟨rfl, rfl, rfl⟩

namespace Locals

variable {l l' : Locals} {hist : List LocalRecord}

theorem Realizes.size (h : l.Realizes hist) : l.table.size = hist.length := by
  rw [← Array.length_toList, h.table, List.length_map]

/-- Every entry of the table is the entry of a record. -/
theorem Realizes.mem_entries (h : l.Realizes hist) {key : Ast.LocalName} {slot : Nat} {ty : Ty}
    (he : (key, slot, ty) ∈ l.entries) : ∃ r ∈ hist, r.key = some key ∧ r.slot = slot ∧ r.ty = ty := by
  rw [h.entries, List.mem_reverse, List.mem_filterMap] at he
  obtain ⟨r, hr, hre⟩ := he
  simp only [LocalRecord.entry, Option.map_eq_some_iff, Prod.mk.injEq] at hre
  obtain ⟨k, hk, rfl, rfl, rfl⟩ := hre
  exact ⟨r, hr, hk, rfl, rfl⟩

/-- The entry of a keyed record is in the table. -/
theorem Realizes.entry_mem (h : l.Realizes hist) {r : LocalRecord} (hr : r ∈ hist)
    {key : Ast.LocalName} (hk : r.key = some key) : (key, r.slot, r.ty) ∈ l.entries := by
  rw [h.entries, List.mem_reverse, List.mem_filterMap]
  exact ⟨r, hr, by simp [LocalRecord.entry, hk]⟩

/-- A key is found in the table exactly when some record has it. -/
theorem Realizes.lookup_isSome (h : l.Realizes hist) (k : Ast.LocalName) :
    (l.entries.lookup k).isSome ↔ ∃ r ∈ hist, r.key = some k := by
  rw [List.lookup_isSome_iff]
  constructor
  · rintro ⟨⟨k', slot, ty⟩, hp, hk⟩
    obtain ⟨r, hr, hkey, -, -⟩ := h.mem_entries hp
    exact ⟨r, hr, by rw [hkey, eq_of_beq hk]⟩
  · rintro ⟨r, hr, hk⟩
    exact ⟨(k, r.slot, r.ty), h.entry_mem hr hk, by simp⟩

/-- **The step lemma.** Defining a local appends its record to the history, after the checks of
    `DefineOk`. -/
theorem define_realizes (h : l.Realizes hist) {name : Option Ast.LocalName} {ty : Ty}
    {numbered : Bool} {slot : Nat} (hd : l.define name ty numbered = .ok (slot, l')) :
    slot = hist.length ∧ l'.func = l.func ∧
      l'.Realizes (hist ++ [LocalRecord.ofDefine hist name ty numbered]) ∧
      DefineOk hist name numbered := by
  have hsize := h.size
  -- the keyed cases share one shape: a fresh key, the next slot, an entry in front
  have keyed : ∀ (key : Ast.LocalName) (ident : LocalIdent) (nextId : Nat),
      ({ l with nextId } : Locals).bind key ident ty = .ok (slot, l') →
      (∀ r ∈ hist, r.key ≠ some key) ∧ slot = hist.length ∧
        l' = { func := l.func, table := l.table.push ident,
               entries := (key, hist.length, ty) :: l.entries, nextId } := by
    intro key ident nextId hb
    simp only [Locals.bind, Locals.fresh] at hb
    split at hb
    · cases hb
    · rename_i hnone
      cases hb
      refine ⟨fun r hr hk => hnone ((h.lookup_isSome key).mpr ⟨r, hr, hk⟩), hsize, ?_⟩
      rw [hsize]
  match name, hd with
  | some (.name n), hd =>
    obtain ⟨hfresh, rfl, rfl⟩ := keyed (.name n) (.named n) l.nextId hd
    refine ⟨rfl, rfl, ⟨?_, ?_, ?_⟩, ⟨?_, fun h => nomatch h⟩⟩
    · simp [h.table, LocalRecord.ofDefine, LocalIdent.ofName]
    · simp [h.entries, List.filterMap_append, LocalRecord.entry, LocalRecord.ofDefine]
    · simp [h.nextId, nextIdAfter_append, LocalRecord.ofDefine, LocalRecord.number?]
    · rintro k r hk hr
      cases hk
      exact hfresh r hr
  | some (.number k), hd =>
    obtain ⟨hfresh, rfl, rfl⟩ := keyed (.number k) (.anon k) (min (k + 1) maxLocalId) hd
    refine ⟨rfl, rfl, ⟨?_, ?_, ?_⟩, ⟨?_, fun h => nomatch h⟩⟩
    · simp [h.table, LocalRecord.ofDefine, LocalIdent.ofName]
    · simp [h.entries, List.filterMap_append, LocalRecord.entry, LocalRecord.ofDefine]
    · simp [nextIdAfter_append, LocalRecord.ofDefine, LocalRecord.number?]
    · rintro k' r hk hr
      cases hk
      exact hfresh r hr
  | none, hd =>
    simp only [Locals.define] at hd
    cases numbered with
    | true =>
      simp only [if_true] at hd
      split at hd
      · cases hd
      · rename_i hroom
        obtain ⟨hfresh, rfl, rfl⟩ := keyed (.number l.nextId) (.anon 0) (l.nextId + 1) hd
        have hlt : nextIdAfter hist < maxLocalId :=
          Nat.lt_of_le_of_ne (nextIdAfter_le hist) (h.nextId ▸ hroom)
        refine ⟨rfl, rfl, ⟨?_, ?_, ?_⟩, ⟨?_, fun _ _ => h.nextId ▸ hroom⟩⟩
        · simp [h.table, LocalRecord.ofDefine]
        · simp [h.entries, h.nextId, List.filterMap_append, LocalRecord.entry, LocalRecord.ofDefine]
        · simp only [nextIdAfter_append, LocalRecord.ofDefine, LocalRecord.number?, if_true, h.nextId]
          omega
        · rintro k r hk hr
          simp only [if_true, Option.some.injEq] at hk
          subst hk
          exact h.nextId ▸ hfresh r hr
    | false =>
      simp only [Bool.false_eq_true, if_false, Locals.fresh, Except.ok.injEq, Prod.mk.injEq] at hd
      obtain ⟨rfl, rfl⟩ := hd
      refine ⟨hsize, rfl, ⟨?_, ?_, ?_⟩, ⟨?_, fun _ h => nomatch h⟩⟩
      · simp [h.table, LocalRecord.ofDefine]
      · simp [h.entries, List.filterMap_append, LocalRecord.entry, LocalRecord.ofDefine]
      · simp [h.nextId, nextIdAfter_append, LocalRecord.ofDefine, LocalRecord.number?]
      · intro k r hk
        simp at hk

end Locals

/-! ## What a valid history guarantees -/

/-- The records with a number key, each with its number, in order of definition. -/
def numberKeys (hist : List LocalRecord) : List (LocalRecord × Nat) :=
  hist.filterMap fun r => r.number?.map (r, ·)

theorem numberKeys_append (hist : List LocalRecord) (r : LocalRecord) :
    numberKeys (hist ++ [r]) = numberKeys hist ++ (r.number?.map (r, ·)).toList := by
  cases h : r.number? <;> simp [numberKeys, List.filterMap_append, h]

theorem LocalRecord.number?_eq_some {r : LocalRecord} {k : Nat} :
    r.number? = some k ↔ r.key = some (.number k) := by
  unfold LocalRecord.number?
  split <;> simp_all

/-- **A record's identity follows its key**: a name for a name key, the written or a still
    unassigned number for a number key, and an unassigned number without a key. -/
def LocalRecord.Coherent (r : LocalRecord) : Prop :=
  match r.key with
  | some (.name n) => r.ident = .named n
  | some (.number k) => r.ident = .anon k ∨ r.ident = .anon 0
  | none => r.ident = .anon 0

theorem LocalRecord.ofDefine_coherent (hist : List LocalRecord) (name : Option Ast.LocalName)
    (ty : Ty) (numbered : Bool) : (LocalRecord.ofDefine hist name ty numbered).Coherent := by
  unfold LocalRecord.Coherent LocalRecord.ofDefine
  match name with
  | some (.name n) => rfl
  | some (.number k) => exact Or.inl rfl
  | none => cases numbered <;> simp

theorem LocalRecord.ofDefine_number?_eq_some {hist : List LocalRecord}
    {name : Option Ast.LocalName} {ty : Ty} {numbered : Bool} {k : Nat} :
    (LocalRecord.ofDefine hist name ty numbered).number? = some k ↔
      name = some (.number k) ∨ (name = none ∧ numbered = true ∧ k = nextIdAfter hist) := by
  rw [LocalRecord.number?_eq_some]
  unfold LocalRecord.ofDefine
  match name, numbered with
  | some n, _ => simp
  | none, true => simp [eq_comm]
  | none, false => simp

namespace LocalHistory

variable {hist : List LocalRecord}

/-- Records take the slots `0, 1, 2, …` in order. -/
theorem slots (hv : LocalHistory hist) : hist.map (·.slot) = List.range hist.length := by
  induction hv with
  | nil => rfl
  | define ty _ _ ih =>
    rw [List.map_append, ih, List.length_append, List.length_singleton, List.range_succ]
    rfl

theorem coherent (hv : LocalHistory hist) : ∀ r ∈ hist, r.Coherent := by
  induction hv with
  | nil => intro r hr; cases hr
  | define ty _ _ ih =>
    intro r hr
    rcases List.mem_append.mp hr with hr | hr
    · exact ih r hr
    · rw [List.mem_singleton.mp hr]
      exact LocalRecord.ofDefine_coherent _ _ _ _

/-- No two records share a key. -/
theorem keys_nodup (hv : LocalHistory hist) : (hist.filterMap (·.key)).Nodup := by
  induction hv with
  | nil => exact List.nodup_nil
  | @define hist name ty numbered _ hok ih =>
    rw [List.filterMap_append, List.nodup_append]
    refine ⟨ih, by cases h : (LocalRecord.ofDefine hist name ty numbered).key <;> simp [h], ?_⟩
    intro k hk k' hk'
    simp only [List.filterMap_cons, List.filterMap_nil] at hk'
    obtain ⟨r, hr, hrk⟩ := List.mem_filterMap.mp hk
    intro hkk
    subst hkk
    split at hk'
    · cases hk'
    · rename_i k'' hkey
      rw [← List.mem_singleton.mp hk'] at hkey
      exact hok.fresh k r hkey hr hrk

/-- Two records with one key are one record. -/
theorem key_inj (hv : LocalHistory hist) {r₁ r₂ : LocalRecord} {k : Ast.LocalName}
    (h₁ : r₁ ∈ hist) (h₂ : r₂ ∈ hist) (hk₁ : r₁.key = some k) (hk₂ : r₂.key = some k) :
    r₁ = r₂ := by
  induction hv with
  | nil => cases h₁
  | @define hist name ty numbered _ hok ih =>
    rcases List.mem_append.mp h₁ with h₁ | h₁ <;> rcases List.mem_append.mp h₂ with h₂ | h₂
    · exact ih h₁ h₂
    · rw [List.mem_singleton.mp h₂] at hk₂
      exact absurd hk₁ (hok.fresh k r₁ hk₂ h₁)
    · rw [List.mem_singleton.mp h₁] at hk₁
      exact absurd hk₂ (hok.fresh k r₂ hk₁ h₂)
    · rw [List.mem_singleton.mp h₁, List.mem_singleton.mp h₂]

/-- A written `%0` after other number keys would repeat the key of position `0`, once the number
    keys so far are their positions; so a fresh `%0` comes first. -/
theorem zero_position_of_fresh {numbered : Bool}
    (hpos : ∀ (j : Nat) (r : LocalRecord) (k : Nat), (numberKeys hist)[j]? = some (r, k) → k = j)
    (hok : DefineOk hist (some (.number 0)) numbered) : (numberKeys hist).length = 0 := by
  cases hn : (numberKeys hist).length with
  | zero => rfl
  | succ m =>
    obtain ⟨⟨r₀, k₀⟩, hr₀⟩ : ∃ p, (numberKeys hist)[0]? = some p :=
      ⟨_, List.getElem?_eq_getElem (by omega)⟩
    have hk₀ : k₀ = 0 := hpos 0 r₀ k₀ hr₀
    subst hk₀
    obtain ⟨r', hr', hr'k⟩ := List.mem_filterMap.mp (List.mem_of_getElem? hr₀)
    rw [Option.map_eq_some_iff] at hr'k
    obtain ⟨k'', h'', hp⟩ := hr'k
    cases hp
    exact absurd (LocalRecord.number?_eq_some.mp h'') (hok.fresh (.number 0) _ rfl hr')

/-- **Implicit numbering and explicit `%N` agree.** If each record with a number key starts
    unnumbered or with its position among those records, then every number key is that position,
    and the next implicit number is the count of number keys (below `maxLocalId`). -/
theorem number_eq_position (hv : LocalHistory hist)
    (hnum : ∀ (j : Nat) (r : LocalRecord) (k : Nat), (numberKeys hist)[j]? = some (r, k) →
      r.ident = .anon 0 ∨ r.ident = .anon j) :
    (∀ (j : Nat) (r : LocalRecord) (k : Nat), (numberKeys hist)[j]? = some (r, k) → k = j) ∧
      nextIdAfter hist = min (numberKeys hist).length maxLocalId := by
  induction hv with
  | nil => exact ⟨fun j r k h => by simp [numberKeys] at h, by simp [nextIdAfter, numberKeys]⟩
  | @define hist name ty numbered hv' hok ih =>
    rw [numberKeys_append] at hnum ⊢
    have hprefix : ∀ (j : Nat) (r : LocalRecord) (k : Nat), (numberKeys hist)[j]? = some (r, k) →
        r.ident = .anon 0 ∨ r.ident = .anon j := by
      intro j r k h
      obtain ⟨hj, _⟩ := List.getElem?_eq_some_iff.mp h
      rw [← List.getElem?_append_left hj] at h
      exact hnum j r k h
    obtain ⟨hpos, hnext⟩ := ih hprefix
    cases hk : (LocalRecord.ofDefine hist name ty numbered).number? with
    | none =>
      simp only [Option.map_none, Option.toList_none, List.append_nil]
      refine ⟨hpos, ?_⟩
      rw [nextIdAfter_append, hk]
      exact hnext
    | some k =>
      simp only [Option.map_some, Option.toList_some]
      -- the new number key sits at position `n`; it must be `n` itself
      have hat : (numberKeys hist ++ [(LocalRecord.ofDefine hist name ty numbered, k)])[
          (numberKeys hist).length]? = some (LocalRecord.ofDefine hist name ty numbered, k) := by
        simp
      have hkn : k = (numberKeys hist).length := by
        rcases LocalRecord.ofDefine_number?_eq_some.mp hk with hexp | ⟨rfl, rfl, himp⟩
        · -- written `%k`: it keeps `k`, which is `0` or its position
          subst hexp
          rcases hnum _ _ _ hat with h0 | hj
          · simp only [LocalRecord.ofDefine, Option.map_some, Option.getD_some, LocalIdent.ofName,
              LocalIdent.anon.injEq] at h0
            subst h0
            exact (zero_position_of_fresh hpos hok).symm
          · simpa [LocalRecord.ofDefine, LocalIdent.ofName] using hj
        · -- unnamed: it takes the next implicit number, which is still below the bound
          have hroom := hok.room rfl rfl
          rw [hnext] at himp hroom
          rw [himp]
          exact Nat.min_eq_left (Nat.le_of_lt (Nat.lt_of_not_le fun h => hroom (Nat.min_eq_right h)))
      refine ⟨?_, ?_⟩
      · intro j r' k' h
        rcases Nat.lt_or_ge j (numberKeys hist).length with hj | hj
        · rw [List.getElem?_append_left hj] at h
          exact hpos j r' k' h
        · rw [List.getElem?_append_right hj] at h
          have hj' : j - (numberKeys hist).length = 0 := by
            cases hjn : j - (numberKeys hist).length with
            | zero => rfl
            | succ m => simp [hjn] at h
          rw [hj', List.getElem?_cons_zero, Option.some.injEq, Prod.mk.injEq] at h
          omega
      · rw [nextIdAfter_append, hk, List.length_append, List.length_singleton, hkn]

end LocalHistory

/-! ## Looking a name up -/

/-- In a list with distinct keys, looking a key up finds exactly its entry. -/
theorem lookup_eq_some_iff_mem {α β : Type} [BEq α] [LawfulBEq α] {entries : List (α × β)}
    (hnd : (entries.map Prod.fst).Nodup) {k : α} {b : β} :
    entries.lookup k = some b ↔ (k, b) ∈ entries := by
  induction entries with
  | nil => simp
  | cons e rest ih =>
    obtain ⟨k', b'⟩ := e
    rw [List.map_cons, List.nodup_cons] at hnd
    by_cases hk : k = k'
    · subst hk
      simp only [List.lookup_cons_self, Option.some.injEq, List.mem_cons, Prod.mk.injEq, true_and]
      constructor
      · intro h; exact Or.inl h.symm
      · rintro (h | h)
        · exact h.symm
        · exact absurd (List.mem_map_of_mem (f := Prod.fst) h) hnd.1
    · have hne : (k == k') = false := by simp [hk]
      rw [List.lookup_cons, hne, ih hnd.2]
      simp [hk]

namespace Locals

variable {l : Locals} {hist : List LocalRecord}

/-- **Resolving a written name** finds the record defined under that key. -/
theorem get_eq_ok_iff (h : l.Realizes hist) (hv : LocalHistory hist) {name : Ast.LocalName}
    {slot : Nat} {ty : Ty} :
    l.get name = .ok (slot, ty) ↔ ∃ r ∈ hist, r.key = some name ∧ r.slot = slot ∧ r.ty = ty := by
  have hkeys : (l.entries.map Prod.fst).Nodup := by
    rw [h.entries, List.map_reverse, List.nodup_reverse, List.map_filterMap]
    have heq : (hist.filterMap fun r => (r.entry).map Prod.fst) = hist.filterMap (·.key) := by
      apply List.filterMap_congr
      intro r _
      cases hk : r.key <;> simp [LocalRecord.entry, hk]
    rw [heq]
    exact hv.keys_nodup
  unfold Locals.get
  constructor
  · intro hg
    split at hg
    · rename_i e he
      cases hg
      exact h.mem_entries ((lookup_eq_some_iff_mem hkeys).mp he)
    · cases hg
  · rintro ⟨r, hr, hk, rfl, rfl⟩
    rw [(lookup_eq_some_iff_mem hkeys).mpr (h.entry_mem hr hk)]

end Locals

end LlvmAsm
