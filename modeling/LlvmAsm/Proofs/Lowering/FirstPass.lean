import LlvmAsm.Proofs.Lowering.History

/-!
# `Proofs.Lowering.FirstPass` — the first pass over a body extends the history

Each definition step of the first pass (`Locals.define`, and through it `defineResult`,
`defineParams`, `Scope.declareInst`, `Scope.declareTerm`) appends records to the history a table
of locals tracks. The step lemmas here say which records: a parameter or label takes a key always;
a result takes a record of its declared type, keyless exactly when that type is `void`; a store
takes none.
-/

namespace LlvmAsm

/-- **A table of locals tracks a history**: it realizes the history, and the history is one that
defining locals one after the other produces. -/
structure Locals.Tracks (l : Locals) (hist : List LocalRecord) : Prop where
  realizes : l.Realizes hist
  valid : LocalHistory hist

/-- A record of a result of declared type `ty`: it has that type, and a key unless the type is
`void`. -/
structure LocalRecord.IsResult (r : LocalRecord) (ty : Ty) : Prop where
  ty_eq : r.ty = ty
  keyless : r.key = none ↔ ty.isVoid = true

theorem Locals.tracks_empty (func : String) : ({ func } : Locals).Tracks [] :=
  ⟨realizes_empty func, .nil⟩

namespace Locals

variable {l l' : Locals} {hist : List LocalRecord}

/-- **The step lemma of the first pass.** Defining a local appends its record. -/
theorem define_tracks {name : Option Ast.LocalName} {ty : Ty} {numbered : Bool} {slot : Nat}
    (h : l.Tracks hist) (hd : l.define name ty numbered = .ok (slot, l')) :
    slot = hist.length ∧ l'.func = l.func ∧
      l'.Tracks (hist ++ [LocalRecord.ofDefine hist name ty numbered]) := by
  obtain ⟨hslot, hfunc, hreal, hok⟩ := define_realizes h.realizes hd
  exact ⟨hslot, hfunc, ⟨hreal, .define ty h.valid hok⟩⟩

/-- A local defined as numbered always takes a key. -/
theorem ofDefine_key_isSome (hist : List LocalRecord) (name : Option Ast.LocalName) (ty : Ty) :
    (LocalRecord.ofDefine hist name ty true).key.isSome := by
  cases name <;> simp [LocalRecord.ofDefine]

/-- Defining a result appends one record of its type, keyless exactly when it is `void`. -/
theorem defineResult_tracks {name : Option Ast.LocalName} {ty : Ty} {slot : Nat}
    (h : l.Tracks hist) (hd : l.defineResult name ty = .ok (slot, l')) :
    ∃ r, slot = r.slot ∧ r.IsResult ty ∧ l'.func = l.func ∧ l'.Tracks (hist ++ [r]) := by
  unfold defineResult at hd
  split at hd
  · rename_i hvoid
    -- a `void` result may not be named, and takes a slot without a key
    split at hd
    · cases hd
    · obtain ⟨hslot, hfunc, ht⟩ := define_tracks h hd
      exact ⟨_, hslot, ⟨rfl, by simp [LocalRecord.ofDefine, hvoid]⟩, hfunc, ht⟩
  · rename_i hvoid
    obtain ⟨hslot, hfunc, ht⟩ := define_tracks h hd
    have hkey := ofDefine_key_isSome hist name ty
    refine ⟨_, hslot, ⟨rfl, ?_⟩, hfunc, ht⟩
    constructor
    · intro hnone
      rw [hnone] at hkey
      cases hkey
    · intro hv
      exact absurd hv hvoid

/-- **Parameters** take one keyed record each, of the parameter's type, in order. -/
theorem defineParams_tracks :
    ∀ {ps : List (Ast.Param × Ty)} {l l' : Locals} {hist : List LocalRecord} {slots : List Nat},
      l.Tracks hist → l.defineParams ps = .ok (slots, l') →
      ∃ recs, slots = recs.map (·.slot) ∧
        List.Forall₂ (fun r (pt : Ast.Param × Ty) => r.ty = pt.2 ∧ r.key.isSome) recs ps ∧
        l'.func = l.func ∧ l'.Tracks (hist ++ recs)
  | [], l, l', hist, slots, h, hd => by
    simp only [defineParams, Except.ok.injEq, Prod.mk.injEq] at hd
    obtain ⟨rfl, rfl⟩ := hd
    exact ⟨[], rfl, .nil, rfl, by simpa using h⟩
  | (p, ty) :: rest, l, l', hist, slots, h, hd => by
    simp only [defineParams] at hd
    obtain ⟨⟨slot, l₁⟩, h₁, hd⟩ := Except.bind_eq_ok_iff.mp hd
    obtain ⟨⟨slots', l₂⟩, h₂, hd⟩ := Except.bind_eq_ok_iff.mp hd
    cases hd
    obtain ⟨rfl, hf₁, ht₁⟩ := define_tracks h h₁
    obtain ⟨recs, rfl, hall, hf₂, ht₂⟩ := defineParams_tracks ht₁ h₂
    refine ⟨_ :: recs, rfl, .cons ⟨rfl, ofDefine_key_isSome hist p.name ty⟩ hall, hf₂.trans hf₁, ?_⟩
    simpa using ht₂

end Locals

namespace Scope

variable {s : Scope} {l l' : Locals} {hist : List LocalRecord}

/-- **One instruction** appends the record of its result: none for a store, otherwise one of the
    result type the first pass reads off the instruction. -/
theorem declareInst_tracks {i : Ast.Instruction} {result : Option Nat}
    (h : l.Tracks hist) (hd : s.declareInst l i = .ok (result, l')) :
    ∃ recs, l'.func = l.func ∧ l'.Tracks (hist ++ recs) ∧
      ((result = none ∧ recs = [] ∧ s.resultType i.kind = .ok none) ∨
        ∃ r ty, result = some r.slot ∧ recs = [r] ∧ s.resultType i.kind = .ok (some ty) ∧
          r.IsResult ty) := by
  unfold declareInst at hd
  obtain ⟨rt, hrt, hd⟩ := Except.bind_eq_ok_iff.mp hd
  cases rt with
  | none =>
    -- a store defines nothing, and may not name a result
    dsimp only at hd
    split at hd
    · cases hd
    · cases hd
      exact ⟨[], rfl, by simpa using h, .inl ⟨rfl, rfl, hrt⟩⟩
  | some ty =>
    dsimp only at hd
    obtain ⟨⟨slot, l₁⟩, h₁, hd⟩ := Except.bind_eq_ok_iff.mp hd
    cases hd
    obtain ⟨r, rfl, hr, hf, ht⟩ := Locals.defineResult_tracks h h₁
    exact ⟨[r], hf, ht, .inr ⟨r, ty, rfl, rfl, hrt, hr⟩⟩

/-- **A terminator** appends the record of an invoke's result, of its callee's return type, and
    nothing otherwise. -/
theorem declareTerm_tracks {t : Ast.Terminator} {result : Option Nat}
    (h : l.Tracks hist) (hd : s.declareTerm l t = .ok (result, l')) :
    ∃ recs, l'.func = l.func ∧ l'.Tracks (hist ++ recs) ∧
      ((result = none ∧ recs = [] ∧ ∀ res c n u, t ≠ .invoke res c n u) ∨
        ∃ r res c n u sig, t = .invoke res c n u ∧ result = some r.slot ∧ recs = [r] ∧
          s.callSignature c = .ok sig ∧ r.IsResult sig.ret) := by
  cases t with
  | invoke res c n u =>
    simp only [declareTerm] at hd
    obtain ⟨sig, hsig, hd⟩ := Except.bind_eq_ok_iff.mp hd
    obtain ⟨⟨slot, l₁⟩, h₁, hd⟩ := Except.bind_eq_ok_iff.mp hd
    cases hd
    obtain ⟨r, rfl, hr, hf, ht⟩ := Locals.defineResult_tracks h h₁
    exact ⟨[r], hf, ht, .inr ⟨r, res, c, n, u, sig, rfl, rfl, rfl, hsig, hr⟩⟩
  | _ =>
    simp only [declareTerm, pure, Except.pure, Except.ok.injEq, Prod.mk.injEq] at hd
    obtain ⟨rfl, rfl⟩ := hd
    exact ⟨[], rfl, by simpa using h, .inl ⟨rfl, rfl, fun _ _ _ _ hc => nomatch hc⟩⟩

end Scope

end LlvmAsm
