import LlvmAsm.Proofs.Lowering.ConstantTypes
import LlvmAsm.Proofs.Sites

/-!
# `Proofs.Lowering.SecondPass` — what checking a body refers to

The second pass reads only the keys the first pass entered (`Locals.entries`). Every operand it
builds uses a local entered under some key at a type equivalent to the type written at the use
(`Locals.Resolves`), and every slot it puts in block position is entered with the type `label`
itself (`Locals.LabelSlot`): that is all `Locals.get` and `Locals.block` check.

An instruction keeps the result slot the first pass gave it, and its result type fits the type
the first pass declared for it (`TypeFits`): the same type, except for a binary operation, whose
result takes the type of its left operand, which is only equivalent to the declared one.
-/

namespace LlvmAsm

/-- **A result type fits its declared type**: equivalent to it, `void` exactly when it is, and
`label` whenever it is. -/
structure TypeFits (types : TypeTable) (declared actual : Ty) : Prop where
  equiv : types.equivalent declared actual
  isVoid_eq : declared.isVoid = actual.isVoid
  label : declared = .label → actual = .label

theorem TypeFits.refl (types : TypeTable) (ty : Ty) : TypeFits types ty ty :=
  ⟨TypeTable.equivalent_refl types ty, rfl, id⟩

/-- A type with an integer under its names fits any type equivalent to it: neither can be `void`
or `label`, which are their own underlying types. -/
theorem TypeFits.of_underlying_int {types : TypeTable} {declared actual : Ty} {bits : Nat}
    (h : types.equivalent declared actual) (hu : types.underlying actual = .int bits) :
    TypeFits types declared actual := by
  have hactual : actual ≠ .void := by
    intro hv
    rw [hv, TypeTable.underlying,
      TypeTable.underlyingWith_of_not_named (fun name (h : Ty.void = .named name) => nomatch h)] at hu
    cases hu
  have hdeclared : ∀ ty, (ty = .void ∨ ty = .label) → declared ≠ ty := by
    intro ty hty hd
    subst hd
    have hb : ∀ name, declared ≠ .named name := by
      rcases hty with rfl | rfl <;> exact fun _ h => nomatch h
    have hu' := TypeTable.underlying_of_equivalent (TypeTable.equivalent_symm h) hb
    rw [hu, TypeTable.resolveAlias, TypeTable.resolveAliasWith_of_not_named hb] at hu'
    rcases hty with rfl | rfl <;> cases hu'
  refine ⟨h, ?_, fun hl => absurd hl (hdeclared _ (.inr rfl))⟩
  rw [Bool.eq_iff_iff, Ty.isVoid_eq_true_iff, Ty.isVoid_eq_true_iff]
  exact ⟨fun hv => absurd hv (hdeclared _ (.inl rfl)), fun hv => absurd hv hactual⟩

namespace Locals

variable {l : Locals} {types : TypeTable}

/-- **An operand resolves in `l`**: the local it uses, if any, is entered under some key, at a
type equivalent to the type written at the use. -/
def Resolves (l : Locals) (types : TypeTable) (v : Value) : Prop :=
  ∀ slot ty, v.use? = some (slot, ty) →
    ∃ key declared, (key, slot, declared) ∈ l.entries ∧ types.equivalent declared ty

/-- **A slot in block position** is entered under some key with the type `label` itself. -/
def LabelSlot (l : Locals) (slot : Nat) : Prop := ∃ key, (key, slot, Ty.label) ∈ l.entries

theorem resolves_const (c : Const) : l.Resolves types (.const c) := fun _ _ h => nomatch h

theorem get_mem {name : Ast.LocalName} {e : Nat × Ty} (h : l.get name = .ok e) :
    (name, e) ∈ l.entries := by
  unfold get at h
  split at h
  · rename_i e' he
    cases h
    obtain ⟨l₁, l₂, hl, _⟩ := List.lookup_eq_some_iff.mp he
    rw [hl]
    exact List.mem_append_right _ List.mem_cons_self
  · cases h

/-- A branch target is found under its written name, with the type `label`. -/
theorem get_of_block {name : Ast.LocalName} {slot : Nat} (h : l.block name = .ok slot) :
    l.get name = .ok (slot, .label) := by
  unfold block at h
  obtain ⟨⟨slot', ty⟩, hg, h⟩ := Except.bind_eq_ok_iff.mp h
  dsimp only at h
  split at h
  · cases h
  · rename_i hty
    cases h
    rwa [Decidable.of_not_not hty] at hg

/-- A branch target is entered with the type `label`. -/
theorem block_labelSlot {name : Ast.LocalName} {slot : Nat} (h : l.block name = .ok slot) :
    l.LabelSlot slot :=
  ⟨name, get_mem (get_of_block h)⟩

theorem resolves_nil : ∀ v ∈ ([] : List Value), l.Resolves types v := fun _ h => nomatch h

theorem labelSlot_nil : ∀ t ∈ ([] : List Nat), l.LabelSlot t := fun _ h => nomatch h

end Locals

namespace Scope

variable {s : Scope} {l : Locals} {q q' : FixupQueue}

/-- **An operand** resolves, and its type is equivalent to the expected one. -/
theorem lowerValue_ok {expected : Ty} {v : Ast.Value} {w : Value}
    (h : (s.lowerValue l expected v).run.run q = (.ok w, q')) :
    l.Resolves s.types w ∧ s.types.equivalent w.ty expected := by
  cases v with
  | localRef name =>
    unfold lowerValue at h
    obtain ⟨⟨slot, ty⟩, hg, h₁⟩ := LowerM.ofExcept_bind_ok h
    dsimp only at h₁
    obtain ⟨hequiv, h₂⟩ := LowerM.guard_ok (mismatchAt_fails _ _ _) h₁
    cases h₂
    refine ⟨?_, TypeTable.equivalent_refl _ _⟩
    intro slot' ty' hu
    simp only [Value.use?, Option.some.injEq, Prod.mk.injEq] at hu
    obtain ⟨rfl, rfl⟩ := hu
    exact ⟨name, ty, Locals.get_mem hg, by simpa using hequiv⟩
  | const c =>
    unfold lowerValue at h
    obtain ⟨k, q₁, hk, h₁⟩ := LowerM.bind_ok h
    cases h₁
    exact ⟨Locals.resolves_const k, lowerConst_ty_equivalent hk⟩

/-- An operand written with its type resolves at a type equivalent to the written one. -/
theorem lowerTypedValue_ok {v : Ast.TypedValue} {w : Value}
    (h : (s.lowerTypedValue l v).run.run q = (.ok w, q')) :
    l.Resolves s.types w ∧ ∃ ty, s.lowerType v.ty = .ok ty ∧ s.types.equivalent w.ty ty := by
  unfold lowerTypedValue at h
  obtain ⟨ty, hty, h₁⟩ := LowerM.ofExcept_bind_ok h
  obtain ⟨hres, hequiv⟩ := lowerValue_ok h₁
  exact ⟨hres, ty, hty, hequiv⟩

/-- **A call's operands** resolve, and its signature is the one read off the written call. -/
theorem lowerCall_ok {c : Ast.Call} {C : Call} (h : (s.lowerCall l c).run.run q = (.ok C, q')) :
    (∀ v ∈ C.values, l.Resolves s.types v) ∧ s.callSignature c = .ok C.sig := by
  unfold lowerCall at h
  obtain ⟨sig, hsig, h₁⟩ := LowerM.ofExcept_bind_ok h
  obtain ⟨callee, q₂, hcallee, h₂⟩ := LowerM.bind_ok h₁
  obtain ⟨args, q₃, hargs, h₃⟩ := LowerM.bind_ok h₂
  dsimp only at h₃
  obtain ⟨_, h₄⟩ := LowerM.guard_ok (mismatchAt_fails _ _ _) h₃
  cases h₄
  refine ⟨?_, hsig⟩
  intro v hv
  rcases List.mem_cons.mp hv with rfl | hv
  · exact (lowerValue_ok hcallee).1
  · exact LowerM.mapM_forall (fun _ _ _ _ _ ha => (lowerTypedValue_ok ha).1) hargs v hv

/-- **An instruction** keeps the result slot the first pass gave it; its operands resolve, its
    incoming blocks are labels, and its result type fits the declared one. -/
theorem lowerInst_ok {r : Option Nat} {k : Ast.InstKind} {I : Instruction}
    (h : (s.lowerInst l r k).run.run q = (.ok I, q')) :
    I.result = r ∧ (∀ v ∈ I.kind.values, l.Resolves s.types v) ∧
      (∀ t ∈ I.kind.targets, l.LabelSlot t) ∧
      ∀ ty, s.resultType k = .ok (some ty) → TypeFits s.types ty I.kind.resultTy := by
  have pair : ∀ {a b : Value}, l.Resolves s.types a → l.Resolves s.types b →
      ∀ v ∈ [a, b], l.Resolves s.types v := by
    intro a b ha hb v hv
    simp only [List.mem_cons, List.not_mem_nil, or_false] at hv
    rcases hv with rfl | rfl
    exacts [ha, hb]
  cases k with
  | binary op lhs rhs =>
    unfold lowerInst at h
    obtain ⟨a, q₁, ha, h₁⟩ := LowerM.bind_ok h
    dsimp only at h₁
    split at h₁
    · rename_i bits hbits
      obtain ⟨b, q₂, hb, h₂⟩ := LowerM.bind_ok h₁
      cases h₂
      obtain ⟨hra, T, hT, haT⟩ := lowerTypedValue_ok ha
      refine ⟨rfl, pair hra (lowerValue_ok hb).1, Locals.labelSlot_nil, ?_⟩
      -- the result has the left operand's type, an integer equivalent to the declared type
      intro ty hty
      obtain ⟨T', hT', hsome⟩ := Except.map_eq_ok_iff.mp hty
      rw [hT] at hT'
      cases hT'
      cases hsome
      exact TypeFits.of_underlying_int (TypeTable.equivalent_symm haT) hbits
    · exact absurd h₁ mismatchAt_bind_ne_ok
  | icmp pred lhs rhs =>
    unfold lowerInst at h
    obtain ⟨a, q₁, ha, h₁⟩ := LowerM.bind_ok h
    dsimp only at h₁
    -- an integer or a pointer operand passes; the result is an `i1` either way
    have done : ∀ {q₁ : FixupQueue}, (do
        let b ← s.lowerValue l a.ty rhs
        return (⟨r, .icmp pred a b⟩ : Instruction)).run.run q₁ = (.ok I, q') →
        I.result = r ∧ (∀ v ∈ I.kind.values, l.Resolves s.types v) ∧
          (∀ t ∈ I.kind.targets, l.LabelSlot t) ∧
          ∀ ty, s.resultType (.icmp pred lhs rhs) = .ok (some ty) →
            TypeFits s.types ty I.kind.resultTy := by
      intro q₁ h₂
      obtain ⟨b, q₂, hb, h₃⟩ := LowerM.bind_ok h₂
      cases h₃
      refine ⟨rfl, pair (lowerTypedValue_ok ha).1 (lowerValue_ok hb).1, Locals.labelSlot_nil, ?_⟩
      intro ty hty
      cases hty
      exact TypeFits.refl _ _
    split at h₁
    · exact done h₁
    · exact done h₁
    · exact absurd h₁ mismatchAt_bind_ne_ok
  | alloca elem =>
    unfold lowerInst at h
    obtain ⟨e, he, h₁⟩ := LowerM.ofExcept_bind_ok h
    cases h₁
    refine ⟨rfl, Locals.resolves_nil, Locals.labelSlot_nil, ?_⟩
    intro ty hty
    obtain ⟨e', he', hty'⟩ := Except.bind_eq_ok_iff.mp hty
    rw [he] at he'
    cases he'
    cases hty'
    exact TypeFits.refl _ _
  | load ty ptr =>
    unfold lowerInst at h
    obtain ⟨t, ht, h₁⟩ := LowerM.ofExcept_bind_ok h
    obtain ⟨p, q₁, hp, h₂⟩ := LowerM.bind_ok h₁
    obtain ⟨_, q₂, _, h₃⟩ := LowerM.bind_ok h₂
    cases h₃
    refine ⟨rfl, ?_, Locals.labelSlot_nil, ?_⟩
    · intro v hv
      rw [List.mem_singleton.mp hv]
      exact (lowerTypedValue_ok hp).1
    · intro ty' hty
      obtain ⟨t', ht', hsome⟩ := Except.map_eq_ok_iff.mp hty
      rw [ht] at ht'
      cases ht'
      cases hsome
      exact TypeFits.refl _ _
  | store value ptr =>
    unfold lowerInst at h
    obtain ⟨v, q₁, hv, h₁⟩ := LowerM.bind_ok h
    obtain ⟨p, q₂, hp, h₂⟩ := LowerM.bind_ok h₁
    obtain ⟨_, q₃, _, h₃⟩ := LowerM.bind_ok h₂
    cases h₃
    refine ⟨rfl, pair (lowerTypedValue_ok hv).1 (lowerTypedValue_ok hp).1,
      Locals.labelSlot_nil, ?_⟩
    -- a store has no result type to fit
    intro ty hty
    cases hty
  | phi ty incoming =>
    unfold lowerInst at h
    obtain ⟨t, ht, h₁⟩ := LowerM.ofExcept_bind_ok h
    obtain ⟨pairs, q₁, hpairs, h₂⟩ := LowerM.bind_ok h₁
    cases h₂
    -- each incoming pair is a resolved value and a label
    have hpair : ∀ pr ∈ pairs, l.Resolves s.types pr.1 ∧ l.LabelSlot pr.2 := by
      refine LowerM.mapM_forall (fun _ _ _ _ pr hpr => ?_) hpairs
      obtain ⟨w, q₃, hw, h₃⟩ := LowerM.bind_ok hpr
      obtain ⟨slot, hslot, h₄⟩ := LowerM.ofExcept_bind_ok h₃
      cases h₄
      exact ⟨(lowerValue_ok hw).1, Locals.block_labelSlot hslot⟩
    refine ⟨rfl, ?_, ?_, ?_⟩
    · intro v hv
      obtain ⟨pr, hpr, rfl⟩ := List.mem_map.mp hv
      exact (hpair pr hpr).1
    · intro b hb
      obtain ⟨pr, hpr, rfl⟩ := List.mem_map.mp hb
      exact (hpair pr hpr).2
    · intro ty' hty
      obtain ⟨t', ht', hsome⟩ := Except.map_eq_ok_iff.mp hty
      rw [ht] at ht'
      cases ht'
      cases hsome
      exact TypeFits.refl _ _
  | call c =>
    unfold lowerInst at h
    obtain ⟨C, q₁, hC, h₁⟩ := LowerM.bind_ok h
    cases h₁
    obtain ⟨hres, hsig⟩ := lowerCall_ok hC
    refine ⟨rfl, hres, Locals.labelSlot_nil, ?_⟩
    intro ty hty
    obtain ⟨sig, hsig', hty'⟩ := Except.bind_eq_ok_iff.mp hty
    rw [hsig] at hsig'
    cases hsig'
    cases hty'
    exact TypeFits.refl _ _

/-- **A terminator**'s operands resolve and its destinations are labels; it defines a result
    exactly when it is an invoke, at the slot the first pass gave it and of its callee's return
    type. -/
theorem lowerTerm_ok {retTy : Ty} {r : Option Nat} {t : Ast.Terminator} {T : Terminator}
    (h : (s.lowerTerm l retTy r t).run.run q = (.ok T, q')) :
    (∀ v ∈ T.values, l.Resolves s.types v) ∧ (∀ b ∈ T.targets, l.LabelSlot b) ∧
      ((∀ res c n u, t ≠ .invoke res c n u) → T.localDef? = none) ∧
      ∀ res c n u, t = .invoke res c n u →
        ∃ sig, s.callSignature c = .ok sig ∧ T.localDef? = some ⟨r.getD 0, sig.ret, .result true⟩ := by
  have not_invoke : ∀ {t : Ast.Terminator}, (∀ res c n u, t ≠ .invoke res c n u) →
      ∀ res c n u, t = .invoke res c n u →
        ∃ sig, s.callSignature c = .ok sig ∧ T.localDef? = some ⟨r.getD 0, sig.ret, .result true⟩ :=
    fun hne res c n u heq => absurd heq (hne res c n u)
  cases t with
  | ret value =>
    cases value with
    | none =>
      simp only [lowerTerm] at h
      split at h
      · rw [run_mismatchAt] at h
        cases h
      · cases h
        exact ⟨Locals.resolves_nil, Locals.labelSlot_nil, fun _ => rfl,
          not_invoke fun _ _ _ _ hc => nomatch hc⟩
    | some value =>
      simp only [lowerTerm] at h
      obtain ⟨v, q₁, hv, h₁⟩ := LowerM.bind_ok h
      obtain ⟨_, h₂⟩ := LowerM.guard_ok (mismatchAt_fails _ _ _) h₁
      cases h₂
      refine ⟨?_, Locals.labelSlot_nil, fun _ => rfl, not_invoke fun _ _ _ _ hc => nomatch hc⟩
      intro w hw
      rw [List.mem_singleton.mp hw]
      exact (lowerTypedValue_ok hv).1
  | br target =>
    simp only [lowerTerm] at h
    obtain ⟨slot, hslot, h₁⟩ := LowerM.ofExcept_bind_ok h
    cases h₁
    refine ⟨Locals.resolves_nil, ?_, fun _ => rfl, not_invoke fun _ _ _ _ hc => nomatch hc⟩
    intro b hb
    rw [List.mem_singleton.mp hb]
    exact Locals.block_labelSlot hslot
  | condBr cond thenBlock elseBlock =>
    simp only [lowerTerm] at h
    obtain ⟨c, q₁, hc, h₁⟩ := LowerM.bind_ok h
    obtain ⟨_, h₂⟩ := LowerM.guard_ok (mismatchAt_fails _ _ _) h₁
    obtain ⟨a, ha, h₃⟩ := LowerM.ofExcept_bind_ok h₂
    obtain ⟨b, hb, h₄⟩ := LowerM.ofExcept_bind_ok h₃
    cases h₄
    refine ⟨?_, ?_, fun _ => rfl, not_invoke fun _ _ _ _ hc => nomatch hc⟩
    · intro w hw
      rw [List.mem_singleton.mp hw]
      exact (lowerTypedValue_ok hc).1
    · intro slot hslot
      simp only [Terminator.targets, List.mem_cons, List.not_mem_nil, or_false] at hslot
      rcases hslot with rfl | rfl
      exacts [Locals.block_labelSlot ha, Locals.block_labelSlot hb]
  | unreachable =>
    simp only [lowerTerm] at h
    cases h
    exact ⟨Locals.resolves_nil, Locals.labelSlot_nil, fun _ => rfl,
      not_invoke fun _ _ _ _ hc => nomatch hc⟩
  | invoke res call normal unwind =>
    simp only [lowerTerm] at h
    obtain ⟨C, q₁, hC, h₁⟩ := LowerM.bind_ok h
    obtain ⟨n, hn, h₂⟩ := LowerM.ofExcept_bind_ok h₁
    obtain ⟨u, hu, h₃⟩ := LowerM.ofExcept_bind_ok h₂
    cases h₃
    obtain ⟨hres, hsig⟩ := lowerCall_ok hC
    refine ⟨hres, ?_, fun hne => absurd rfl (hne res call normal unwind), ?_⟩
    · intro slot hslot
      simp only [Terminator.targets, List.mem_cons, List.not_mem_nil, or_false] at hslot
      rcases hslot with rfl | rfl
      exacts [Locals.block_labelSlot hn, Locals.block_labelSlot hu]
    · intro res' c n' u' heq
      cases heq
      exact ⟨C.sig, hsig, rfl⟩

/-- **A block**'s operands resolve and the blocks it names are labels. -/
theorem lowerBlock_ok {retTy : Ty} {b : Ast.Block} {d : DeclaredBlock} {B : Block}
    (h : (s.lowerBlock l retTy b d).run.run q = (.ok B, q')) :
    B.label = d.label ∧ (∀ v ∈ B.values, l.Resolves s.types v) ∧
      (∀ t ∈ B.targets, l.LabelSlot t) := by
  unfold lowerBlock at h
  obtain ⟨insts, q₁, hinsts, h₁⟩ := LowerM.bind_ok h
  obtain ⟨term, q₂, hterm, h₂⟩ := LowerM.bind_ok h₁
  cases h₂
  have hI : ∀ I ∈ insts, (∀ v ∈ I.kind.values, l.Resolves s.types v) ∧
      (∀ t ∈ I.kind.targets, l.LabelSlot t) := by
    refine LowerM.mapM_forall (fun ir _ _ _ I hI => ?_) hinsts
    obtain ⟨i, r⟩ := ir
    obtain ⟨_, hv, ht, _⟩ := lowerInst_ok hI
    exact ⟨hv, ht⟩
  obtain ⟨hvT, htT, _, _⟩ := lowerTerm_ok hterm
  refine ⟨rfl, ?_, ?_⟩
  · intro v hv
    rcases List.mem_append.mp hv with hv | hv
    · obtain ⟨I, hI', hvI⟩ := List.mem_flatMap.mp hv
      exact (hI I hI').1 v hvI
    · exact hvT v hv
  · intro t ht
    rcases List.mem_append.mp ht with ht | ht
    · obtain ⟨I, hI', htI⟩ := List.mem_flatMap.mp ht
      exact (hI I hI').2 t htI
    · exact htT t ht

end Scope

end LlvmAsm
