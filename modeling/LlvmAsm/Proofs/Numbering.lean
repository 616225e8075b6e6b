import LlvmAsm.Ir.Function

/-!
# `Proofs.Numbering` — what numbering does to a table of identities

`Function.numberSlots` walks a list of slots and numbers the anonymous identities among them, in
order. For a list without repeats this module says exactly what the walk does:

* the anonymous slots of the list, in order (`anonSlots`), receive `next, next + 1, …`, and every
  other slot keeps its identity (`numberSlots_ident`);
* while the counter has numbers for all of them, it succeeds exactly when each anonymous slot is
  still unnumbered or already carries the number of its position (`numberSlots_ok_iff`), and
  fails otherwise with `invalidLocalId` at the first that does not (`numberSlots_eq_error_iff`);
* the counter is a 32-bit number, and it overflows (`idsExhausted`) only when the walk has more
  anonymous slots than numbers are left (`numberSlots_exhausted`); a walk that succeeds had
  enough (`numberSlots_fits`).

Numbering a function (`Function.assignIds`) is this walk over `Function.visitOrder`.
-/

namespace LlvmAsm

namespace LocalTable

/-- Setting a slot changes the identity of that slot only, and only when it is in the table. -/
theorem ident_setIfInBounds (t : LocalTable) (slot s : Nat) (x : LocalIdent) :
    ident (t.setIfInBounds slot x) s = if slot = s ∧ slot < t.size then x else t.ident s := by
  simp only [ident, Array.getElem?_setIfInBounds]
  by_cases hs : slot = s
  · subst hs
    by_cases hlt : slot < t.size <;> simp [hlt]
  · simp [hs]

end LocalTable

namespace Function

/-- The slots of `slots` whose identity in `t` is anonymous, in order: the slots numbering
numbers. -/
def anonSlots (t : LocalTable) (slots : List Nat) : List Nat :=
  slots.filter fun s => !(t.ident s).isNamed

@[simp] theorem anonSlots_nil (t : LocalTable) : anonSlots t [] = [] := rfl

theorem anonSlots_cons_named {t : LocalTable} {slot : Nat} {name : String} (slots : List Nat)
    (h : t.ident slot = .named name) : anonSlots t (slot :: slots) = anonSlots t slots := by
  simp [anonSlots, h, LocalIdent.isNamed]

theorem anonSlots_cons_anon {t : LocalTable} {slot id : Nat} (slots : List Nat)
    (h : t.ident slot = .anon id) : anonSlots t (slot :: slots) = slot :: anonSlots t slots := by
  simp [anonSlots, h, LocalIdent.isNamed]

/-- Setting a slot that is not in the list does not change which of its slots are anonymous. -/
theorem anonSlots_setIfInBounds {t : LocalTable} {slot : Nat} {slots : List Nat} (x : LocalIdent)
    (h : slot ∉ slots) : anonSlots (t.setIfInBounds slot x) slots = anonSlots t slots := by
  apply List.filter_congr
  intro s hs
  have hne : ¬(slot = s ∧ slot < t.size) := fun ⟨he, _⟩ => h (he ▸ hs)
  rw [LocalTable.ident_setIfInBounds, if_neg hne]

theorem anonSlots_sublist (t : LocalTable) (slots : List Nat) : (anonSlots t slots).Sublist slots :=
  List.filter_sublist

/-- Which slots of a list are anonymous depends only on which slots of the table are named. -/
theorem anonSlots_congr {t t' : LocalTable} (h : ∀ s, (t'.ident s).isNamed = (t.ident s).isNamed)
    (slots : List Nat) : anonSlots t' slots = anonSlots t slots :=
  List.filter_congr fun s _ => by rw [h s]

/-- Numbering an anonymous slot leaves every slot named or anonymous as it was. -/
theorem isNamed_setIfInBounds_anon {t : LocalTable} {slot id : Nat} (h : t.ident slot = .anon id)
    (k s : Nat) : (LocalTable.ident (t.setIfInBounds slot (.anon k)) s).isNamed =
      (t.ident s).isNamed := by
  rw [LocalTable.ident_setIfInBounds]
  split
  · next hs => rw [← hs.1, h]; rfl
  · rfl

variable {func : String}

/-- **The identities numbering leaves.** The `j`-th anonymous slot of the list is numbered
    `next + j`; every other slot keeps its identity. -/
theorem numberSlots_ident :
    ∀ {slots : List Nat} {next : Nat} {t t' : LocalTable}, slots.Nodup →
      (∀ s ∈ slots, s < t.size) → numberSlots func slots next t = .ok t' →
      ∀ s, t'.ident s = ((anonSlots t slots).idxOf? s).elim (t.ident s) fun j => .anon (next + j)
  | [], _, t, t', _, _, h, s => by
    simp only [numberSlots, Except.ok.injEq] at h
    simp [h]
  | slot :: rest, next, t, t', hnd, hlt, h, s => by
    obtain ⟨hnotin, hnd'⟩ := List.nodup_cons.mp hnd
    simp only [numberSlots] at h
    cases hslot : t.ident slot with
    | named name =>
      simp only [hslot] at h
      rw [anonSlots_cons_named rest hslot]
      exact numberSlots_ident hnd' (fun s hs => hlt s (List.mem_cons_of_mem _ hs)) h s
    | anon id =>
      simp only [hslot] at h
      by_cases hbad : (id ≠ 0 && id ≠ next) = true
      · rw [if_pos hbad] at h; cases h
      rw [if_neg hbad] at h
      by_cases hmax : next = maxLocalId
      · rw [if_pos hmax] at h; cases h
      rw [if_neg hmax] at h
      -- the rest of the walk sees the table with `slot` numbered, which changes none of its slots
      have hsize : (t.setIfInBounds slot (.anon next)).size = t.size := Array.size_setIfInBounds
      have ih := numberSlots_ident hnd'
        (fun s hs => hsize ▸ hlt s (List.mem_cons_of_mem _ hs)) h s
      rw [anonSlots_setIfInBounds _ hnotin] at ih
      rw [anonSlots_cons_anon rest hslot, ih, List.idxOf?_cons]
      have hin : slot < t.size := hlt slot List.mem_cons_self
      by_cases hs : slot = s
      · subst hs
        have hnone : (anonSlots t rest).idxOf? slot = none :=
          List.idxOf?_eq_none_iff.mpr fun hm => hnotin ((anonSlots_sublist t rest).subset hm)
        simp [hnone, LocalTable.ident_setIfInBounds, hin]
      · cases hidx : (anonSlots t rest).idxOf? s with
        | none => simp [hs, LocalTable.ident_setIfInBounds]
        | some j => simp [hs, Nat.add_comm j 1, Nat.add_assoc]

/-- **When numbering succeeds.** While the counter has numbers for every anonymous slot: exactly
    when each is unnumbered (`0`) or already carries the number of its position. -/
theorem numberSlots_ok_iff :
    ∀ {slots : List Nat} {next : Nat} {t : LocalTable}, slots.Nodup →
      next + (anonSlots t slots).length ≤ maxLocalId →
      ((∃ t', numberSlots func slots next t = .ok t') ↔
        ∀ j s, (anonSlots t slots)[j]? = some s → t.ident s = .anon 0 ∨ t.ident s = .anon (next + j))
  | [], _, t, _, _ => by simp [numberSlots]
  | slot :: rest, next, t, hnd, hfit => by
    obtain ⟨hnotin, hnd'⟩ := List.nodup_cons.mp hnd
    cases hslot : t.ident slot with
    | named name =>
      simp only [numberSlots, hslot]
      rw [anonSlots_cons_named rest hslot] at hfit ⊢
      exact numberSlots_ok_iff hnd' hfit
    | anon id =>
      rw [anonSlots_cons_anon rest hslot, List.length_cons] at hfit
      have hmax : ¬ next = maxLocalId := by omega
      have ih := @numberSlots_ok_iff rest (next + 1) (t.setIfInBounds slot (.anon next)) hnd'
        (by rw [anonSlots_setIfInBounds _ hnotin]; omega)
      rw [anonSlots_setIfInBounds _ hnotin] at ih
      -- the rest of the walk reads only slots other than `slot`, whose identities are unchanged
      have hrest : ∀ s ∈ anonSlots t rest,
          LocalTable.ident (t.setIfInBounds slot (.anon next)) s = t.ident s := by
        intro s hs
        have hne : ¬(slot = s ∧ slot < t.size) :=
          fun ⟨he, _⟩ => hnotin (he ▸ (anonSlots_sublist t rest).subset hs)
        rw [LocalTable.ident_setIfInBounds, if_neg hne]
      have hcond : (id ≠ 0 && id ≠ next) = true ↔ id ≠ 0 ∧ id ≠ next := by simp
      simp only [numberSlots, hslot, anonSlots_cons_anon rest hslot]
      by_cases hbad : id ≠ 0 ∧ id ≠ next
      · rw [if_pos (hcond.mpr hbad)]
        refine iff_of_false (fun ⟨_, h⟩ => by cases h) fun hall => ?_
        rcases hall 0 slot rfl with h | h <;> rw [hslot] at h <;> cases h
        · exact hbad.1 rfl
        · exact hbad.2 rfl
      · rw [if_neg (mt hcond.mp hbad), if_neg hmax, ih]
        constructor
        · intro hall j s hjs
          cases j with
          | zero =>
            simp only [List.getElem?_cons_zero, Option.some.injEq] at hjs
            subst hjs
            by_cases h0 : id = 0
            · exact Or.inl (by rw [hslot, h0])
            · exact Or.inr (by rw [hslot]; congr 1; omega)
          | succ j =>
            have hs : s ∈ anonSlots t rest := List.mem_of_getElem? hjs
            have := hall j s hjs
            rwa [hrest s hs, Nat.add_right_comm] at this
        · intro hall j s hjs
          have hs : s ∈ anonSlots t rest := List.mem_of_getElem? hjs
          rw [hrest s hs, Nat.add_right_comm]
          exact hall (j + 1) s hjs

/-- Numbering a definition is the walk over its visiting order from `0`. -/
theorem assignIds_eq_ok_iff {f f' : Function} (hb : f.blocks ≠ []) :
    f.assignIds = .ok f' ↔
      ∃ t, numberSlots f.name f.visitOrder 0 f.locals = .ok t ∧ f' = { f with locals := t } := by
  have hdef : f.isDeclaration = false := by simpa [isDeclaration] using hb
  unfold assignIds
  rw [hdef]
  cases numberSlots f.name f.visitOrder 0 f.locals with
  | error e =>
    constructor
    · intro h
      cases h
    · rintro ⟨t, ht, -⟩
      cases ht
  | ok t =>
    constructor
    · intro h
      cases h
      exact ⟨t, rfl, rfl⟩
    · rintro ⟨t', ht, rfl⟩
      cases ht
      rfl

theorem assignIds_eq_error_iff {f : Function} {e : IrError} (hb : f.blocks ≠ []) :
    f.assignIds = .error e ↔ numberSlots f.name f.visitOrder 0 f.locals = .error e := by
  have hdef : f.isDeclaration = false := by simpa [isDeclaration] using hb
  unfold assignIds
  rw [hdef]
  cases numberSlots f.name f.visitOrder 0 f.locals with
  | error e' =>
    constructor
    · intro h
      cases h
      rfl
    · intro h
      cases h
      rfl
  | ok t =>
    constructor
    · intro h
      cases h
    · intro h
      cases h

/-- In a list without repeats, the element at position `i` is first found at `i`. -/
theorem idxOf?_eq_some_of_getElem? {slots : List Nat} {s i : Nat} (hnd : slots.Nodup)
    (h : slots[i]? = some s) : slots.idxOf? s = some i := by
  obtain ⟨hi, rfl⟩ := List.getElem?_eq_some_iff.mp h
  rw [List.idxOf?_eq_some_iff]
  refine ⟨hi, rfl, fun j hj heq => ?_⟩
  have hji := (List.getElem_inj hnd).mp heq
  omega

/-- Numbering fails only with an out-of-sequence local number or an overflow of its counter. -/
theorem numberSlots_error :
    ∀ {slots : List Nat} {next : Nat} {t : LocalTable} {e : IrError},
      numberSlots func slots next t = .error e →
        (∃ expected got, e = .invalidLocalId func expected got) ∨ e = .idsExhausted
  | [], _, _, _, h => by simp [numberSlots] at h
  | slot :: rest, next, t, e, h => by
    simp only [numberSlots] at h
    split at h
    · exact numberSlots_error h
    · split at h
      · cases h; exact .inl ⟨_, _, rfl⟩
      · split at h
        · cases h; exact .inr rfl
        · exact numberSlots_error h

/-- **Numbering overflows only past the last number**: when its counter overflows, the walk had
    more anonymous slots than numbers were left. -/
theorem numberSlots_exhausted : ∀ {slots : List Nat} {next : Nat} {t : LocalTable},
    numberSlots func slots next t = .error .idsExhausted →
      maxLocalId < next + (anonSlots t slots).length
  | [], _, _, h => by cases h
  | slot :: rest, next, t, h => by
    simp only [numberSlots] at h
    cases hslot : t.ident slot with
    | named name =>
      simp only [hslot] at h
      rw [anonSlots_cons_named rest hslot]
      exact numberSlots_exhausted h
    | anon id =>
      simp only [hslot] at h
      rw [anonSlots_cons_anon rest hslot, List.length_cons]
      split at h
      · cases h
      · split at h
        · omega
        · have ih := numberSlots_exhausted h
          rw [anonSlots_congr (isNamed_setIfInBounds_anon hslot next) rest] at ih
          omega

/-- **A walk that succeeds had numbers enough**: from a number within 32 bits, the counter ends
    within them. -/
theorem numberSlots_fits : ∀ {slots : List Nat} {next : Nat} {t t' : LocalTable},
    numberSlots func slots next t = .ok t' → next ≤ maxLocalId →
      next + (anonSlots t slots).length ≤ maxLocalId
  | [], _, _, _, _, hn => by simpa using hn
  | slot :: rest, next, t, t', h, hn => by
    simp only [numberSlots] at h
    cases hslot : t.ident slot with
    | named name =>
      simp only [hslot] at h
      rw [anonSlots_cons_named rest hslot]
      exact numberSlots_fits h hn
    | anon id =>
      simp only [hslot] at h
      rw [anonSlots_cons_anon rest hslot, List.length_cons]
      split at h
      · cases h
      · split at h
        · cases h
        · have ih := numberSlots_fits h (by omega)
          rw [anonSlots_congr (isNamed_setIfInBounds_anon hslot next) rest] at ih
          omega

/-- Numbering sets anonymous slots only, to anonymous identities: which slots are named stays. -/
theorem numberSlots_isNamed : ∀ {slots : List Nat} {next : Nat} {t t' : LocalTable},
    numberSlots func slots next t = .ok t' → ∀ s, (t'.ident s).isNamed = (t.ident s).isNamed
  | [], _, _, _, h, s => by cases h; rfl
  | slot :: rest, next, t, t', h, s => by
    simp only [numberSlots] at h
    cases hslot : t.ident slot with
    | named name =>
      simp only [hslot] at h
      exact numberSlots_isNamed h s
    | anon id =>
      simp only [hslot] at h
      split at h
      · cases h
      · split at h
        · cases h
        · rw [numberSlots_isNamed h s, isNamed_setIfInBounds_anon hslot]

/-- **Where numbering fails.** Exactly at the first anonymous slot whose number is neither `0`
    nor the number of its position, reporting that position's number and the slot's. -/
theorem numberSlots_eq_error_iff :
    ∀ {slots : List Nat} {next : Nat} {t : LocalTable} {e : IrError}, slots.Nodup →
      next + (anonSlots t slots).length ≤ maxLocalId →
      (numberSlots func slots next t = .error e ↔
        ∃ k s id, (anonSlots t slots)[k]? = some s ∧ t.ident s = .anon id ∧ id ≠ 0 ∧
          id ≠ next + k ∧
          (∀ j s', j < k → (anonSlots t slots)[j]? = some s' →
            t.ident s' = .anon 0 ∨ t.ident s' = .anon (next + j)) ∧
          e = .invalidLocalId func (next + k) id)
  | [], _, t, e, _, _ => by simp [numberSlots]
  | slot :: rest, next, t, e, hnd, hfit => by
    obtain ⟨hnotin, hnd'⟩ := List.nodup_cons.mp hnd
    cases hslot : t.ident slot with
    | named name =>
      simp only [numberSlots, hslot]
      rw [anonSlots_cons_named rest hslot] at hfit ⊢
      exact numberSlots_eq_error_iff hnd' hfit
    | anon id₀ =>
      rw [anonSlots_cons_anon rest hslot, List.length_cons] at hfit
      have hmax : ¬ next = maxLocalId := by omega
      have ih := @numberSlots_eq_error_iff rest (next + 1) (t.setIfInBounds slot (.anon next)) e hnd'
        (by rw [anonSlots_setIfInBounds _ hnotin]; omega)
      rw [anonSlots_setIfInBounds _ hnotin] at ih
      -- the rest of the walk reads only slots other than `slot`, whose identities are unchanged
      have hrest : ∀ s ∈ anonSlots t rest,
          LocalTable.ident (t.setIfInBounds slot (.anon next)) s = t.ident s := by
        intro s hs
        have hne : ¬(slot = s ∧ slot < t.size) :=
          fun ⟨he, _⟩ => hnotin (he ▸ (anonSlots_sublist t rest).subset hs)
        rw [LocalTable.ident_setIfInBounds, if_neg hne]
      simp only [numberSlots, hslot, anonSlots_cons_anon rest hslot]
      by_cases hbad : id₀ ≠ 0 ∧ id₀ ≠ next
      · rw [if_pos (by simpa using hbad)]
        constructor
        · intro h
          cases h
          exact ⟨0, slot, id₀, rfl, hslot, hbad.1, by simpa using hbad.2,
            fun j _ hj => absurd hj (Nat.not_lt_zero j), rfl⟩
        · rintro ⟨k, s, id, hk, hs, -, -, hgood, rfl⟩
          cases k with
          | zero =>
            simp only [List.getElem?_cons_zero, Option.some.injEq] at hk
            subst hk
            rw [hslot] at hs
            cases hs
            rfl
          | succ k =>
            -- the first slot is then a good one, against `hbad`
            rcases hgood 0 slot (Nat.zero_lt_succ k) rfl with h | h <;> rw [hslot] at h <;>
              cases h
            · exact absurd rfl hbad.1
            · exact absurd rfl hbad.2
      · rw [if_neg (by simpa using hbad), if_neg hmax, ih]
        constructor
        · rintro ⟨k, s, id, hk, hs, h0, hne, hgood, rfl⟩
          have hsm : s ∈ anonSlots t rest := List.mem_of_getElem? hk
          refine ⟨k + 1, s, id, hk, (hrest s hsm) ▸ hs, h0, by omega, ?_, by
            rw [Nat.add_right_comm, Nat.add_assoc]⟩
          intro j s' hj hjs
          cases j with
          | zero =>
            simp only [List.getElem?_cons_zero, Option.some.injEq] at hjs
            subst hjs
            by_cases h0' : id₀ = 0
            · exact .inl (by rw [hslot, h0'])
            · have hnext : id₀ = next := Classical.byContradiction fun h => hbad ⟨h0', h⟩
              exact .inr (by rw [hslot, hnext, Nat.add_zero])
          | succ j =>
            have hs' : s' ∈ anonSlots t rest := List.mem_of_getElem? hjs
            have := hgood j s' (by omega) hjs
            rwa [hrest s' hs', Nat.add_right_comm] at this
        · rintro ⟨k, s, id, hk, hs, h0, hne, hgood, rfl⟩
          cases k with
          | zero =>
            simp only [List.getElem?_cons_zero, Option.some.injEq] at hk
            subst hk
            rw [hslot] at hs
            cases hs
            exact absurd ⟨h0, by simpa using hne⟩ hbad
          | succ k =>
            have hsm : s ∈ anonSlots t rest := List.mem_of_getElem? hk
            refine ⟨k, s, id, hk, by rw [hrest s hsm]; exact hs, h0, by omega, ?_, by
              rw [Nat.add_right_comm, Nat.add_assoc]⟩
            intro j s' hj hjs
            have hs' : s' ∈ anonSlots t rest := List.mem_of_getElem? hjs
            rw [hrest s' hs', Nat.add_right_comm]
            exact hgood (j + 1) s' (by omega) hjs

/-- **The walk up to a slot.** When the anonymous slots before the `k`-th, `s`, may all be
    numbered, the walk over the slots before `s` succeeds: it numbers the `j`-th anonymous slot
    `next + j` for every `j < k` and leaves every other slot as it was. -/
theorem numberSlots_before {slots : List Nat} {next k s : Nat} {t : LocalTable}
    (hnd : slots.Nodup) (hlt : ∀ s ∈ slots, s < t.size) (hfit : next + k ≤ maxLocalId)
    (hk : (anonSlots t slots)[k]? = some s)
    (hgood : ∀ j s', j < k → (anonSlots t slots)[j]? = some s' →
      t.ident s' = .anon 0 ∨ t.ident s' = .anon (next + j)) :
    ∃ pre post t', slots = pre ++ s :: post ∧ numberSlots func pre next t = .ok t' ∧
      (∀ j s', j < k → (anonSlots t slots)[j]? = some s' → t'.ident s' = .anon (next + j)) ∧
      ∀ x, x ∉ (anonSlots t slots).take k → t'.ident x = t.ident x := by
  have hsm : s ∈ anonSlots t slots := List.mem_of_getElem? hk
  obtain ⟨pre, post, rfl⟩ := List.append_of_mem ((anonSlots_sublist t _).subset hsm)
  have hnd' : pre.Nodup := (List.nodup_append.mp hnd).1
  -- the anonymous slots before `s` are the first `k` of them
  have hanon : anonSlots t (pre ++ s :: post) = anonSlots t pre ++ s :: anonSlots t post := by
    have hs : (t.ident s).isNamed = false := by
      have := (List.mem_filter.mp hsm).2
      simpa using this
    simp [anonSlots, List.filter_append, hs]
  have hLnd : (anonSlots t (pre ++ s :: post)).Nodup := (anonSlots_sublist t _).nodup hnd
  have hklen : k = (anonSlots t pre).length := by
    have hat : (anonSlots t (pre ++ s :: post))[(anonSlots t pre).length]? = some s := by
      rw [hanon, List.getElem?_append_right (Nat.le_refl _), Nat.sub_self, List.getElem?_cons_zero]
    have h₁ := idxOf?_eq_some_of_getElem? hLnd hk
    have h₂ := idxOf?_eq_some_of_getElem? hLnd hat
    rw [h₁] at h₂
    exact Option.some.inj h₂
  have htake : (anonSlots t (pre ++ s :: post)).take k = anonSlots t pre := by
    rw [hanon, hklen]
    exact List.take_left' rfl
  have hpre : ∀ j s', (anonSlots t pre)[j]? = some s' →
      t.ident s' = .anon 0 ∨ t.ident s' = .anon (next + j) := by
    intro j s' hjs
    have hj : j < k := hklen ▸ (List.getElem?_eq_some_iff.mp hjs).1
    refine hgood j s' hj ?_
    rw [← List.getElem?_take_of_lt hj, htake]
    exact hjs
  obtain ⟨t', ht'⟩ := (numberSlots_ok_iff hnd' (hklen ▸ hfit)).mpr hpre
  have hltpre : ∀ x ∈ pre, x < t.size := fun x hx => hlt x (List.mem_append_left _ hx)
  have hident := numberSlots_ident hnd' hltpre ht'
  refine ⟨pre, post, t', rfl, ht', fun j s' hj hjs => ?_, fun x hx => ?_⟩
  · have hjs' : (anonSlots t pre)[j]? = some s' := by
      rw [← htake, List.getElem?_take_of_lt hj]
      exact hjs
    rw [hident, idxOf?_eq_some_of_getElem? ((anonSlots_sublist t pre).nodup hnd') hjs']
    rfl
  · rw [htake] at hx
    rw [hident, List.idxOf?_eq_none_iff.mpr hx]
    rfl

/-- Numbering keeps the size of the table. -/
theorem numberSlots_size : ∀ {slots : List Nat} {next : Nat} {t t' : LocalTable},
    numberSlots func slots next t = .ok t' → t'.size = t.size
  | [], _, _, _, h => by
    cases h
    rfl
  | slot :: rest, next, t, t', h => by
    simp only [numberSlots] at h
    split at h
    · exact numberSlots_size h
    · split at h
      · cases h
      · split at h
        · cases h
        · exact (numberSlots_size h).trans Array.size_setIfInBounds

/-- Setting a slot of the table to the identity it holds changes nothing. -/
theorem setIfInBounds_ident_self {t : LocalTable} {slot : Nat} (h : slot < t.size) :
    t.setIfInBounds slot (t.ident slot) = t := by
  apply Array.ext
  · exact Array.size_setIfInBounds
  · intro i h₁ h₂
    rw [Array.getElem_setIfInBounds]
    by_cases hi : slot = i
    · subst hi
      simp [LocalTable.ident, h]
    · rw [if_neg hi]

/-- **A numbered table is a fixed point.** When every anonymous slot of the list already carries
    the number of its position, numbering succeeds and changes nothing. -/
theorem numberSlots_of_numbered :
    ∀ {slots : List Nat} {next : Nat} {t : LocalTable}, slots.Nodup →
      (∀ s ∈ slots, s < t.size) → next + (anonSlots t slots).length ≤ maxLocalId →
      (∀ j s, (anonSlots t slots)[j]? = some s → t.ident s = .anon (next + j)) →
      numberSlots func slots next t = .ok t
  | [], _, _, _, _, _, _ => rfl
  | slot :: rest, next, t, hnd, hlt, hfit, hnum => by
    obtain ⟨hnotin, hnd'⟩ := List.nodup_cons.mp hnd
    have hlt' : ∀ s ∈ rest, s < t.size := fun s hs => hlt s (List.mem_cons_of_mem _ hs)
    cases hslot : t.ident slot with
    | named name =>
      simp only [numberSlots, hslot]
      rw [anonSlots_cons_named rest hslot] at hnum hfit
      exact numberSlots_of_numbered hnd' hlt' hfit hnum
    | anon id =>
      rw [anonSlots_cons_anon rest hslot] at hnum hfit
      rw [List.length_cons] at hfit
      have hid : t.ident slot = .anon next := hnum 0 slot rfl
      rw [hslot] at hid
      cases hid
      have hset : t.setIfInBounds slot (.anon next) = t :=
        hslot ▸ setIfInBounds_ident_self (hlt slot List.mem_cons_self)
      simp only [numberSlots, hslot, ne_eq, not_true_eq_false, decide_false, Bool.and_false,
        Bool.false_eq_true, if_false, hset]
      rw [if_neg (by omega)]
      refine numberSlots_of_numbered hnd' hlt' (by omega) fun j s hjs => ?_
      rw [Nat.add_right_comm]
      exact hnum (j + 1) s hjs

/-- Numbering keeps which slots are anonymous. -/
theorem anonSlots_numberSlots {slots : List Nat} {next : Nat} {t t' : LocalTable}
    (h : numberSlots func slots next t = .ok t') (l : List Nat) : anonSlots t' l = anonSlots t l :=
  anonSlots_congr (numberSlots_isNamed h) l

/-- **A numbered table does not overflow the counter again**: numbering from the same number the
    table a walk returned may fail, but not with an overflow. -/
theorem numberSlots_renumber_ne_exhausted {slots : List Nat} {next : Nat} {t t' : LocalTable}
    (h : numberSlots func slots next t = .ok t') (hn : next ≤ maxLocalId) :
    numberSlots func slots next t' ≠ .error .idsExhausted := fun h' => by
  have hover := numberSlots_exhausted h'
  rw [anonSlots_numberSlots h] at hover
  have := numberSlots_fits h hn
  omega

/-- **Numbering is idempotent** on a list without repeats: numbering the table it returns succeeds
    and returns that table. -/
theorem numberSlots_idempotent {slots : List Nat} {next : Nat} {t t' : LocalTable}
    (hnd : slots.Nodup) (hlt : ∀ s ∈ slots, s < t.size) (hn : next ≤ maxLocalId)
    (h : numberSlots func slots next t = .ok t') :
    numberSlots func slots next t' = .ok t' := by
  have hsize : t'.size = t.size := numberSlots_size h
  refine numberSlots_of_numbered hnd (fun s hs => hsize ▸ hlt s hs)
    (by rw [anonSlots_numberSlots h]; exact numberSlots_fits h hn) fun j s hjs => ?_
  rw [anonSlots_numberSlots h] at hjs
  rw [numberSlots_ident hnd hlt h,
    idxOf?_eq_some_of_getElem? ((anonSlots_sublist t slots).nodup hnd) hjs]
  rfl

end Function

end LlvmAsm
