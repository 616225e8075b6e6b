import LlvmAsm.Proofs.Reading.Constants

/-!
# `Proofs.Lowering.Relowering` — a checked constant checks back from its written form

`Const.toAst` is the written constant the text of a checked constant reads as
(`parseConstant_render`). Checking it again, at the type the constant was checked at, gives the
same constant and queues the same block addresses (`lowerConst_toAst`). Together the two say that
printing a checked constant and lowering what is read back is the identity
(`lowerConst_render_reads_back`).

The proof reads each form of `lowerConst` through one spec lemma (`lowerConst_*_eq_ok_iff`): its
run succeeds exactly when the checks of that form pass, and what it returns is built from the
results of those checks. The same lemma takes a lowering apart and puts the re-lowering together.
Three facts carry the induction:

* the type of a checked constant is well formed when the expected type is
  (`lowerConst_ty_wellFormed`), so writing it before an operand checks again;
* a constant checks at its own type exactly as at the type it was checked at
  (`lowerConst_at_ty`), which is how an operand written after its type is checked again;
* an integer at width 1 is written `true` or `false`, and reads back as the same constant.
-/

namespace LlvmAsm

/-! ## Written forms -/

theorem Const.length_toAstList : ∀ ks : List Const, (Const.toAstList ks).length = ks.length
  | [] => rfl
  | _ :: ks => by rw [Const.toAstList, List.length_cons, List.length_cons, length_toAstList ks]

/-- An integer is written as a boolean at width 1 and as its literal otherwise. -/
theorem Const.toAst_int (i : IntConst) :
    (Const.int i).toAst = if i.bits = 1 then .bool (i.value != 0) else .int i.render := rfl

/-- The integer a boolean checks to is written as that boolean. -/
theorem Const.toAst_int_ofBool (b : Bool) : (Const.int (IntConst.ofBool b)).toAst = .bool b := by
  cases b <;> rfl

/-- An integer read at width 1 is `-1` or `0`, so it is the integer of a boolean: the one its
value being non-zero gives. -/
theorem IntConst.ofBool_of_parse_one {text : String} {i : IntConst}
    (h : IntConst.parse 1 text = .ok i) : IntConst.ofBool (i.value != 0) = i := by
  obtain ⟨h1, -, v, -, ⟨lo, hi⟩, rfl⟩ := IntConst.parse_sound h
  obtain ⟨nlo, nhi, -⟩ := IntConst.normalize_spec h1 lo hi
  have hv : IntConst.normalize 1 v = -1 ∨ IntConst.normalize 1 v = 0 := by
    norm_num at nlo nhi
    omega
  rcases hv with hv | hv <;> simp only [hv] <;> rfl

namespace TypeTable

/-- Every body of the table is well formed: its integer widths are in range and every name it
mentions is defined. -/
def BodiesWellFormed (t : TypeTable) : Prop :=
  ∀ name body, t.body? name = some body → body.WellFormed (t.contains · = true)

variable {t : TypeTable}

/-- Following names from a well-formed type reaches a well-formed type. -/
theorem underlyingWith_wellFormed (hb : t.BodiesWellFormed) :
    ∀ (n : Nat) {ty : Ty}, ty.WellFormed (t.contains · = true) →
      (t.underlyingWith n ty).WellFormed (t.contains · = true)
  | 0, _, hty => hty
  | n + 1, ty, hty => by
    cases ty with
    | named name =>
      simp only [underlyingWith]
      split
      · next body hbody => exact underlyingWith_wellFormed hb n (hb name body hbody)
      · exact hty
    | _ => exact hty

/-- A type that is not a name is its own underlying type. -/
theorem underlying_of_not_named {a : Ty} (ha : ∀ name, a ≠ .named name) : t.underlying a = a :=
  underlyingWith_of_not_named ha _

theorem underlying_wellFormed (hb : t.BodiesWellFormed) {ty : Ty}
    (hty : ty.WellFormed (t.contains · = true)) :
    (t.underlying ty).WellFormed (t.contains · = true) :=
  underlyingWith_wellFormed hb _ hty

end TypeTable

theorem Ty.WellFormedList.of_mem {known : String → Prop} :
    ∀ {tys : List Ty}, Ty.WellFormedList known tys → ∀ ty ∈ tys, ty.WellFormed known
  | [], _, _, hmem => absurd hmem List.not_mem_nil
  | _ :: _, h, _, hmem => by
    rw [Ty.WellFormedList] at h
    rcases List.mem_cons.mp hmem with rfl | hmem
    · exact h.1
    · exact of_mem h.2 _ hmem

section WellFormed

variable {t : TypeTable}

/-- The indices of a `getelementptr` walk from a well-formed type to well-formed types. -/
theorem gepWalk_wellFormed (hb : t.BodiesWellFormed) :
    ∀ {cur : Ty} {indices : List Const} {r : Ty}, cur.WellFormed (t.contains · = true) →
      gepWalk t cur indices = .ok r → r.WellFormed (t.contains · = true)
  | _, [], _, hcur, h => by
    cases h
    exact hcur
  | cur, _ :: rest, r, hcur, h => by
    have hu := TypeTable.underlying_wellFormed hb hcur
    unfold gepWalk at h
    split at h
    · rename_i fields hfields
      rw [hfields, Ty.WellFormed] at hu
      -- a struct index picks one of the fields, or the walk fails
      have hpick : ∃ f ∈ fields, gepWalk t f rest = .ok r := by
        split at h
        · dsimp only at h
          split at h
          · rename_i f hf
            split at hf
            · exact ⟨f, List.mem_of_getElem? hf, h⟩
            · cases hf
          · cases h
        · cases h
      obtain ⟨f, hf, hwalk⟩ := hpick
      exact gepWalk_wellFormed hb (hu.of_mem f hf) hwalk
    · rename_i elem helem
      rw [helem, Ty.WellFormed] at hu
      exact gepWalk_wellFormed hb hu h
    · rename_i elem helem
      rw [helem, Ty.WellFormed] at hu
      exact gepWalk_wellFormed hb hu h
    · cases h

/-- The result type of a `getelementptr` on a well-formed element type is well formed. -/
theorem gepResultType_wellFormed (hb : t.BodiesWellFormed) {elem baseTy ty : Ty}
    {indices : List Const} (helem : elem.WellFormed (t.contains · = true))
    (h : gepResultType t elem baseTy indices = .ok ty) : ty.WellFormed (t.contains · = true) := by
  unfold gepResultType at h
  simp only [bind, Except.bind, pure, Except.pure, throw, throwThe, MonadExceptOf.throw] at h
  repeat' split at h
  all_goals cases h
  -- the two successful runs: a pointer to what the indices past the first reach, or to `elem`
  · rename_i hwalk
    rw [Ty.WellFormed]
    exact gepWalk_wellFormed hb helem hwalk
  · exact helem

end WellFormed

namespace LowerM

variable {α β : Type}

/-- A sequence whose first step succeeds runs its second step from where the first left off. -/
theorem run_bind_of_ok {x : LowerM α} {f : α → LowerM β} {q q₁ : FixupQueue} {a : α}
    (hx : x.run.run q = (.ok a, q₁)) : (x >>= f).run.run q = (f a).run.run q₁ := by
  rw [run_bind, hx]

/-- A sequence that starts with a plain check that passes runs its second step from the same
queue. -/
theorem run_ofExcept_bind_of_ok {x : Except IrError α} {f : α → LowerM β} {q : FixupQueue}
    {a : α} (hx : x = .ok a) : (LowerM.ofExcept x >>= f).run.run q = (f a).run.run q := by
  rw [run_bind, run_ofExcept, hx]

end LowerM

namespace Scope

variable {s : Scope} {T : Ty} {q q' : FixupQueue} {k : Const}

/-! ## What checking each form does -/

theorem run_expressionAt_of_equivalent {e : Const} (h : s.types.equivalent e.ty T) :
    (s.expressionAt T e).run.run q = (.ok e, q) := by
  rw [expressionAt, if_pos h]
  rfl

theorem lowerConst_bool_eq_ok_iff {b : Bool} :
    (s.lowerConst T (.bool b)).run.run q = (.ok k, q') ↔
      s.types.underlying T = .int 1 ∧ k = .int (IntConst.ofBool b) ∧ q' = q := by
  constructor
  · intro h
    unfold lowerConst at h
    split at h
    · cases h
      exact ⟨by assumption, rfl, rfl⟩
    · cases h
  · rintro ⟨hu, rfl, rfl⟩
    unfold lowerConst
    rw [hu]
    rfl

theorem lowerConst_int_eq_ok_iff {text : String} :
    (s.lowerConst T (.int text)).run.run q = (.ok k, q') ↔
      ∃ bits i, s.types.underlying T = .int bits ∧ IntConst.parse bits text = .ok i ∧
        k = .int i ∧ q' = q := by
  constructor
  · intro h
    unfold lowerConst at h
    split at h
    · rename_i bits hu
      obtain ⟨i, hp, hk⟩ := LowerM.ofExcept_bind_ok h
      cases hk
      exact ⟨bits, i, hu, hp, rfl, rfl⟩
    · cases h
  · rintro ⟨bits, i, hu, hp, rfl, rfl⟩
    unfold lowerConst
    rw [hu]
    simp only [LowerM.run_bind, LowerM.run_ofExcept, hp]
    rfl

theorem lowerConst_float_eq_ok_iff {text : String} :
    (s.lowerConst T (.float text)).run.run q = (.ok k, q') ↔
      ∃ kind f, s.types.underlying T = .float kind ∧ FloatConst.parse kind text = .ok f ∧
        k = .float f ∧ q' = q := by
  constructor
  · intro h
    unfold lowerConst at h
    split at h
    · rename_i kind hu
      obtain ⟨f, hp, hk⟩ := LowerM.ofExcept_bind_ok h
      cases hk
      exact ⟨kind, f, hu, hp, rfl, rfl⟩
    · cases h
  · rintro ⟨kind, f, hu, hp, rfl, rfl⟩
    unfold lowerConst
    rw [hu]
    simp only [LowerM.run_bind, LowerM.run_ofExcept, hp]
    rfl

theorem lowerConst_null_eq_ok_iff :
    (s.lowerConst T .null).run.run q = (.ok k, q') ↔
      (∃ elem space, s.types.underlying T = .pointer elem space) ∧ k = .null T ∧ q' = q := by
  constructor
  · intro h
    unfold lowerConst at h
    split at h
    · cases h
      exact ⟨⟨_, _, by assumption⟩, rfl, rfl⟩
    · cases h
  · rintro ⟨⟨elem, space, hu⟩, rfl, rfl⟩
    unfold lowerConst
    rw [hu]
    rfl

theorem lowerConst_none_eq_ok_iff :
    (s.lowerConst T .none).run.run q = (.ok k, q') ↔
      s.types.underlying T = .token ∧ k = .none ∧ q' = q := by
  constructor
  · intro h
    unfold lowerConst at h
    split at h
    · cases h
      exact ⟨by assumption, rfl, rfl⟩
    · cases h
  · rintro ⟨hu, rfl, rfl⟩
    unfold lowerConst
    rw [hu]
    rfl

theorem lowerConst_chars_eq_ok_iff {raw : String} :
    (s.lowerConst T (.chars raw)).run.run q = (.ok k, q') ↔
      ∃ data, Text.unescape raw = .ok data ∧ s.types.underlying T = .array data.length .i8 ∧
        k = .chars data ∧ q' = q := by
  constructor
  · intro h
    unfold lowerConst at h
    split at h
    · cases h
    · rename_i data hdata
      dsimp only at h
      split at h
      · cases h
      · rename_i hu
        cases h
        exact ⟨data, hdata, Decidable.of_not_not hu, rfl, rfl⟩
  · rintro ⟨data, hdata, hu, rfl, rfl⟩
    unfold lowerConst
    rw [hdata]
    simp only [hu, ne_eq, not_true_eq_false, if_false]
    rfl

theorem lowerConst_global_eq_ok_iff {name : String} :
    (s.lowerConst T (.global name)).run.run q = (.ok k, q') ↔
      ∃ sym, s.symbol? name = some sym ∧ s.types.equivalent sym.ty T ∧ k = .global name T ∧
        q' = q := by
  constructor
  · intro h
    unfold lowerConst at h
    split at h
    · cases h
    · rename_i sym hsym
      dsimp only at h
      obtain ⟨hequiv, h₁⟩ := LowerM.guard_ok (mismatchAt_fails _ _ _) h
      cases h₁
      exact ⟨sym, hsym, by simpa using hequiv, rfl, rfl⟩
  · rintro ⟨sym, hsym, hequiv, rfl, rfl⟩
    unfold lowerConst
    rw [hsym]
    simp only [hequiv, Bool.not_true, Bool.false_eq_true, if_false]
    rfl

theorem lowerConst_blockAddress_eq_ok_iff {func : String} {block : Ast.LocalName} :
    (s.lowerConst T (.blockAddress func block)).run.run q = (.ok k, q') ↔
      (∃ ty, s.symbol? func = some ⟨.function, ty⟩) ∧ s.types.equivalent T (.ptr .i8) ∧
        k = .blockAddress func (LocalIdent.ofName block) ∧
        q' = q.push ⟨func, LocalIdent.ofName block⟩ := by
  constructor
  · intro h
    unfold lowerConst at h
    dsimp only at h
    split at h
    · rename_i ty hsym
      obtain ⟨hequiv, h₁⟩ := LowerM.guard_ok (mismatchAt_fails _ _ _) h
      obtain ⟨_, q₂, hpush, h₂⟩ := LowerM.bind_ok h₁
      cases hpush
      cases h₂
      exact ⟨⟨ty, hsym⟩, by simpa using hequiv, rfl, rfl⟩
    · obtain ⟨_, q₁, hthrow, -⟩ := LowerM.bind_ok h
      cases hthrow
  · rintro ⟨⟨ty, hsym⟩, hequiv, rfl, rfl⟩
    unfold lowerConst
    simp only [hsym, hequiv, Bool.not_true, Bool.false_eq_true, if_false]
    rfl

theorem lowerConst_struct_eq_ok_iff {packed : Bool} {fields : List Ast.TypedConst} :
    (s.lowerConst T (.struct packed fields)).run.run q = (.ok k, q') ↔
      ∃ fieldTys, s.types.underlying T = .struct packed fieldTys ∧
        fieldTys.length = fields.length ∧ ∃ elems,
        (s.lowerFields fieldTys fields).run.run q = (.ok elems, q') ∧ k = .struct T packed elems := by
  constructor
  · intro h
    unfold lowerConst at h
    split at h
    · rename_i p fieldTys hu
      split at h
      · rename_i hcheck
        obtain ⟨elems, q₁, helems, hk⟩ := LowerM.bind_ok h
        cases hk
        simp only [Bool.and_eq_true, decide_eq_true_eq] at hcheck
        obtain ⟨rfl, hlen⟩ := hcheck
        exact ⟨fieldTys, hu, hlen, elems, helems, rfl⟩
      · cases h
    · cases h
  · rintro ⟨fieldTys, hu, hlen, elems, helems, rfl⟩
    unfold lowerConst
    rw [hu]
    simp only [hlen, decide_true, Bool.and_self, if_true]
    rw [LowerM.run_bind_of_ok helems]
    rfl

theorem lowerConst_array_eq_ok_iff {elems : List Ast.TypedConst} :
    (s.lowerConst T (.array elems)).run.run q = (.ok k, q') ↔
      ∃ elem, s.types.underlying T = .array elems.length elem ∧ ∃ cs,
        (s.lowerElems "array element" elem elems).run.run q = (.ok cs, q') ∧ k = .array T cs := by
  constructor
  · intro h
    unfold lowerConst at h
    split at h
    · rename_i len elem hu
      split at h
      · cases h
      · rename_i hlen
        obtain ⟨cs, q₁, hcs, hk⟩ := LowerM.bind_ok h
        cases hk
        rw [Decidable.of_not_not hlen] at hu
        exact ⟨elem, hu, cs, hcs, rfl⟩
    · cases h
  · rintro ⟨elem, hu, cs, hcs, rfl⟩
    unfold lowerConst
    rw [hu]
    simp only [ne_eq, not_true_eq_false, if_false]
    rw [LowerM.run_bind_of_ok hcs]
    rfl

theorem lowerConst_vector_eq_ok_iff {elems : List Ast.TypedConst} :
    (s.lowerConst T (.vector elems)).run.run q = (.ok k, q') ↔
      ∃ elem, s.types.underlying T = .vector elems.length elem ∧ ∃ cs,
        (s.lowerElems "vector element" elem elems).run.run q = (.ok cs, q') ∧ k = .vector T cs := by
  constructor
  · intro h
    unfold lowerConst at h
    split at h
    · rename_i len elem hu
      split at h
      · cases h
      · rename_i hlen
        obtain ⟨cs, q₁, hcs, hk⟩ := LowerM.bind_ok h
        cases hk
        rw [Decidable.of_not_not hlen] at hu
        exact ⟨elem, hu, cs, hcs, rfl⟩
    · cases h
  · rintro ⟨elem, hu, cs, hcs, rfl⟩
    unfold lowerConst
    rw [hu]
    simp only [ne_eq, not_true_eq_false, if_false]
    rw [LowerM.run_bind_of_ok hcs]
    rfl

theorem lowerConst_cast_eq_ok_iff {op : CastOp} {value : Ast.TypedConst} {target : Ty} :
    (s.lowerConst T (.cast op value target)).run.run q = (.ok k, q') ↔
      ∃ src, (s.lowerTypedConst value).run.run q = (.ok src, q') ∧ ∃ dst,
        s.lowerType target = .ok dst ∧ op.accepts s.types src.ty dst ∧
        s.types.equivalent dst T ∧ k = .cast op src dst := by
  constructor
  · intro h
    unfold lowerConst at h
    obtain ⟨src, q₁, hsrc, h₁⟩ := LowerM.bind_ok h
    obtain ⟨dst, hdst, h₂⟩ := LowerM.ofExcept_bind_ok h₁
    dsimp only at h₂
    obtain ⟨haccepts, h₃⟩ := LowerM.guard_ok (mismatchAt_fails _ _ _) h₂
    obtain ⟨rfl, rfl, hequiv⟩ := expressionAt_ok h₃
    exact ⟨src, hsrc, dst, hdst, by simpa using haccepts, hequiv, rfl⟩
  · rintro ⟨src, hsrc, dst, hdst, haccepts, hequiv, rfl⟩
    unfold lowerConst
    rw [LowerM.run_bind_of_ok hsrc, LowerM.run_ofExcept_bind_of_ok hdst]
    simp only [haccepts, Bool.not_true, Bool.false_eq_true, if_false]
    exact run_expressionAt_of_equivalent hequiv

theorem lowerConst_binary_eq_ok_iff {op : BinaryOp} {lhs : Ast.TypedConst} {rhsWritten : Ty}
    {rhsValue : Ast.Const} :
    (s.lowerConst T (.binary op lhs (.mk rhsWritten rhsValue))).run.run q = (.ok k, q') ↔
      ∃ l q₁, (s.lowerTypedConst lhs).run.run q = (.ok l, q₁) ∧
        (∃ bits, s.types.underlying l.ty = .int bits) ∧ ∃ rhsTy,
        s.lowerType rhsWritten = .ok rhsTy ∧ s.types.equivalent rhsTy l.ty ∧ ∃ r,
        (s.lowerConst rhsTy rhsValue).run.run q₁ = (.ok r, q') ∧ s.types.equivalent l.ty T ∧
        k = .binary op l r := by
  constructor
  · intro h
    unfold lowerConst at h
    obtain ⟨l, q₁, hl, h₁⟩ := LowerM.bind_ok h
    dsimp only at h₁
    split at h₁
    · rename_i bits hint
      obtain ⟨rhsTy, hrhsTy, h₂⟩ := LowerM.ofExcept_bind_ok h₁
      obtain ⟨hrhs, h₃⟩ := LowerM.guard_ok (mismatchAt_fails _ _ _) h₂
      obtain ⟨r, q₂, hr, h₄⟩ := LowerM.bind_ok h₃
      obtain ⟨rfl, rfl, hequiv⟩ := expressionAt_ok h₄
      exact ⟨l, q₁, hl, ⟨bits, hint⟩, rhsTy, hrhsTy, by simpa using hrhs, r, hr, hequiv, rfl⟩
    · exact absurd h₁ mismatchAt_bind_ne_ok
  · rintro ⟨l, q₁, hl, ⟨bits, hint⟩, rhsTy, hrhsTy, hrhs, r, hr, hequiv, rfl⟩
    unfold lowerConst
    rw [LowerM.run_bind_of_ok hl]
    dsimp only
    rw [hint]
    dsimp only
    rw [LowerM.run_ofExcept_bind_of_ok hrhsTy]
    simp only [hrhs, Bool.not_true, Bool.false_eq_true, if_false]
    rw [LowerM.run_bind_of_ok hr]
    exact run_expressionAt_of_equivalent hequiv

theorem lowerConst_gep_eq_ok_iff {inBounds : Bool} {elem : Ty} {base : Ast.TypedConst}
    {indices : List Ast.TypedConst} :
    (s.lowerConst T (.gep inBounds elem base indices)).run.run q = (.ok k, q') ↔
      ∃ elemTy, s.lowerType elem = .ok elemTy ∧ ∃ b q₁,
        (s.lowerTypedConst base).run.run q = (.ok b, q₁) ∧ ∃ idx,
        (s.lowerTypedConsts indices).run.run q₁ = (.ok idx, q') ∧ ∃ ty,
        gepResultType s.types elemTy b.ty idx = .ok ty ∧ s.types.equivalent ty T ∧
        k = .gep inBounds elemTy b idx ty := by
  constructor
  · intro h
    unfold lowerConst at h
    obtain ⟨elemTy, helemTy, h₁⟩ := LowerM.ofExcept_bind_ok h
    obtain ⟨b, q₁, hb, h₂⟩ := LowerM.bind_ok h₁
    obtain ⟨idx, q₂, hidx, h₃⟩ := LowerM.bind_ok h₂
    obtain ⟨ty, hty, h₄⟩ := LowerM.ofExcept_bind_ok h₃
    obtain ⟨rfl, rfl, hequiv⟩ := expressionAt_ok h₄
    exact ⟨elemTy, helemTy, b, q₁, hb, idx, hidx, ty, hty, hequiv, rfl⟩
  · rintro ⟨elemTy, helemTy, b, q₁, hb, idx, hidx, ty, hty, hequiv, rfl⟩
    unfold lowerConst
    rw [LowerM.run_ofExcept_bind_of_ok helemTy, LowerM.run_bind_of_ok hb,
      LowerM.run_bind_of_ok hidx, LowerM.run_ofExcept_bind_of_ok hty]
    exact run_expressionAt_of_equivalent hequiv

theorem lowerTypedConst_eq_ok_iff {ty : Ty} {value : Ast.Const} :
    (s.lowerTypedConst (.mk ty value)).run.run q = (.ok k, q') ↔
      ∃ t, s.lowerType ty = .ok t ∧ (s.lowerConst t value).run.run q = (.ok k, q') := by
  constructor
  · intro h
    unfold lowerTypedConst at h
    exact LowerM.ofExcept_bind_ok h
  · rintro ⟨t, ht, h⟩
    unfold lowerTypedConst
    rw [LowerM.run_ofExcept_bind_of_ok ht]
    exact h

theorem lowerTypedConsts_cons_eq_ok_iff {c : Ast.TypedConst} {cs : List Ast.TypedConst}
    {ks : List Const} :
    (s.lowerTypedConsts (c :: cs)).run.run q = (.ok ks, q') ↔
      ∃ k q₁ ks', (s.lowerTypedConst c).run.run q = (.ok k, q₁) ∧
        (s.lowerTypedConsts cs).run.run q₁ = (.ok ks', q') ∧ ks = k :: ks' := by
  constructor
  · intro h
    unfold lowerTypedConsts at h
    obtain ⟨k, q₁, hk, h₁⟩ := LowerM.bind_ok h
    obtain ⟨ks', q₂, hks, h₂⟩ := LowerM.bind_ok h₁
    cases h₂
    exact ⟨k, q₁, ks', hk, hks, rfl⟩
  · rintro ⟨k, q₁, ks', hk, hks, rfl⟩
    unfold lowerTypedConsts
    rw [LowerM.run_bind_of_ok hk, LowerM.run_bind_of_ok hks]
    rfl

theorem lowerElems_cons_eq_ok_iff {context : String} {elem ty : Ty} {value : Ast.Const}
    {rest : List Ast.TypedConst} {ks : List Const} :
    (s.lowerElems context elem (.mk ty value :: rest)).run.run q = (.ok ks, q') ↔
      ∃ written, s.lowerType ty = .ok written ∧ s.types.equivalent written elem ∧
        ∃ c q₁ cs, (s.lowerConst elem value).run.run q = (.ok c, q₁) ∧
        (s.lowerElems context elem rest).run.run q₁ = (.ok cs, q') ∧ ks = c :: cs := by
  constructor
  · intro h
    unfold lowerElems at h
    obtain ⟨written, hwritten, h₁⟩ := LowerM.ofExcept_bind_ok h
    dsimp only at h₁
    obtain ⟨hequiv, h₂⟩ := LowerM.guard_ok (mismatchAt_fails _ _ _) h₁
    obtain ⟨c, q₁, hc, h₃⟩ := LowerM.bind_ok h₂
    obtain ⟨cs, q₂, hcs, h₄⟩ := LowerM.bind_ok h₃
    cases h₄
    exact ⟨written, hwritten, by simpa using hequiv, c, q₁, cs, hc, hcs, rfl⟩
  · rintro ⟨written, hwritten, hequiv, c, q₁, cs, hc, hcs, rfl⟩
    unfold lowerElems
    rw [LowerM.run_ofExcept_bind_of_ok hwritten]
    simp only [hequiv, Bool.not_true, Bool.false_eq_true, if_false]
    rw [LowerM.run_bind_of_ok hc, LowerM.run_bind_of_ok hcs]
    rfl

theorem lowerFields_cons_eq_ok_iff {fieldTy ty : Ty} {tys : List Ty} {value : Ast.Const}
    {rest : List Ast.TypedConst} {ks : List Const} :
    (s.lowerFields (fieldTy :: tys) (.mk ty value :: rest)).run.run q = (.ok ks, q') ↔
      ∃ written, s.lowerType ty = .ok written ∧ s.types.equivalent written fieldTy ∧
        ∃ c q₁ cs, (s.lowerConst fieldTy value).run.run q = (.ok c, q₁) ∧
        (s.lowerFields tys rest).run.run q₁ = (.ok cs, q') ∧ ks = c :: cs := by
  constructor
  · intro h
    unfold lowerFields at h
    obtain ⟨written, hwritten, h₁⟩ := LowerM.ofExcept_bind_ok h
    dsimp only at h₁
    obtain ⟨hequiv, h₂⟩ := LowerM.guard_ok (mismatchAt_fails _ _ _) h₁
    obtain ⟨c, q₁, hc, h₃⟩ := LowerM.bind_ok h₂
    obtain ⟨cs, q₂, hcs, h₄⟩ := LowerM.bind_ok h₃
    cases h₄
    exact ⟨written, hwritten, by simpa using hequiv, c, q₁, cs, hc, hcs, rfl⟩
  · rintro ⟨written, hwritten, hequiv, c, q₁, cs, hc, hcs, rfl⟩
    unfold lowerFields
    rw [LowerM.run_ofExcept_bind_of_ok hwritten]
    simp only [hequiv, Bool.not_true, Bool.false_eq_true, if_false]
    rw [LowerM.run_bind_of_ok hc, LowerM.run_bind_of_ok hcs]
    rfl

/-! ## Checked constants have well-formed types -/

theorem wellFormed_of_lowerType {ty t : Ty} (h : s.lowerType ty = .ok t) :
    t.WellFormed (s.types.contains · = true) := by
  obtain ⟨hwf, rfl⟩ := (lowerType_eq_ok_iff s ty t).mp h
  exact hwf

theorem lowerType_of_wellFormed {ty : Ty} (h : ty.WellFormed (s.types.contains · = true)) :
    s.lowerType ty = .ok ty :=
  (lowerType_eq_ok_iff s ty ty).mpr ⟨h, rfl⟩

/-- What a well-formed type is under its names is well formed. -/
theorem wellFormed_of_underlying (hb : s.types.BodiesWellFormed) {U : Ty}
    (hT : T.WellFormed (s.types.contains · = true)) (hu : s.types.underlying T = U) :
    U.WellFormed (s.types.contains · = true) := by
  rw [← hu]
  exact TypeTable.underlying_wellFormed hb hT

mutual

/-- **The type of a checked constant is well formed** when the expected type is: it is the
expected type, a type under its names, a type checked on the way, or the type of an operand. -/
theorem lowerConst_ty_wellFormed (hb : s.types.BodiesWellFormed) :
    ∀ {T : Ty} {c : Ast.Const} {q q' : FixupQueue} {k : Const},
      (s.lowerConst T c).run.run q = (.ok k, q') → T.WellFormed (s.types.contains · = true) →
        k.ty.WellFormed (s.types.contains · = true)
  | _, .bool _, _, _, _, h, hT => by
    obtain ⟨hu, rfl, -⟩ := lowerConst_bool_eq_ok_iff.mp h
    exact wellFormed_of_underlying hb hT hu
  | _, .int _, _, _, _, h, hT => by
    obtain ⟨bits, i, hu, hp, rfl, -⟩ := lowerConst_int_eq_ok_iff.mp h
    show (Ty.int i.bits).WellFormed _
    rw [IntConst.parse_bits hp]
    exact wellFormed_of_underlying hb hT hu
  | _, .float _, _, _, _, h, _ => by
    obtain ⟨kind, f, -, -, rfl, -⟩ := lowerConst_float_eq_ok_iff.mp h
    trivial
  | _, .null, _, _, _, h, hT => by
    obtain ⟨-, rfl, -⟩ := lowerConst_null_eq_ok_iff.mp h
    exact hT
  | _, .none, _, _, _, h, _ => by
    obtain ⟨-, rfl, -⟩ := lowerConst_none_eq_ok_iff.mp h
    trivial
  | _, .struct _ _, _, _, _, h, hT => by
    obtain ⟨_, -, -, _, -, rfl⟩ := lowerConst_struct_eq_ok_iff.mp h
    exact hT
  | _, .array _, _, _, _, h, hT => by
    obtain ⟨_, -, _, -, rfl⟩ := lowerConst_array_eq_ok_iff.mp h
    exact hT
  | _, .vector _, _, _, _, h, hT => by
    obtain ⟨_, -, _, -, rfl⟩ := lowerConst_vector_eq_ok_iff.mp h
    exact hT
  | _, .chars _, _, _, _, h, _ => by
    obtain ⟨data, -, -, rfl, -⟩ := lowerConst_chars_eq_ok_iff.mp h
    exact ⟨by decide, by decide⟩
  | _, .zeroInit, _, _, _, h, hT => by
    cases h
    exact hT
  | _, .undef, _, _, _, h, hT => by
    cases h
    exact hT
  | _, .blockAddress _ _, _, _, _, h, _ => by
    obtain ⟨-, -, rfl, -⟩ := lowerConst_blockAddress_eq_ok_iff.mp h
    exact ⟨by decide, by decide⟩
  | _, .global _, _, _, _, h, hT => by
    obtain ⟨-, -, -, rfl, -⟩ := lowerConst_global_eq_ok_iff.mp h
    exact hT
  | _, .cast _ _ _, _, _, _, h, _ => by
    obtain ⟨-, -, dst, hdst, -, -, rfl⟩ := lowerConst_cast_eq_ok_iff.mp h
    exact wellFormed_of_lowerType hdst
  | _, .binary _ _ (.mk _ _), _, _, _, h, _ => by
    obtain ⟨l, _, hl, -, _, -, -, _, -, -, rfl⟩ := lowerConst_binary_eq_ok_iff.mp h
    show l.ty.WellFormed _
    exact lowerTypedConst_ty_wellFormed hb hl
  | _, .gep _ _ _ _, _, _, _, h, _ => by
    obtain ⟨elemTy, helemTy, _, _, -, _, -, _, hty, -, rfl⟩ := lowerConst_gep_eq_ok_iff.mp h
    exact gepResultType_wellFormed hb (wellFormed_of_lowerType helemTy) hty

theorem lowerTypedConst_ty_wellFormed (hb : s.types.BodiesWellFormed) :
    ∀ {c : Ast.TypedConst} {q q' : FixupQueue} {k : Const},
      (s.lowerTypedConst c).run.run q = (.ok k, q') → k.ty.WellFormed (s.types.contains · = true)
  | .mk _ _, _, _, _, h => by
    obtain ⟨t, ht, h₁⟩ := lowerTypedConst_eq_ok_iff.mp h
    exact lowerConst_ty_wellFormed hb h₁ (wellFormed_of_lowerType ht)

end

/-! ## A constant checks at its own type -/

/-- **A constant checks at its own type** as it does at the type it was checked at: the same
constant, and the same block addresses queued. The scalar forms and a block address have a type
that is its own underlying type or equivalent to itself; the other forms have the expected type
itself, or end with an equivalence check that their own type passes. -/
theorem lowerConst_at_ty {c : Ast.Const} (h : (s.lowerConst T c).run.run q = (.ok k, q')) :
    (s.lowerConst k.ty c).run.run q = (.ok k, q') := by
  have hint : ∀ bits, s.types.underlying (.int bits) = .int bits := fun _ =>
    TypeTable.underlying_of_not_named (fun _ h => nomatch h)
  cases c with
  | bool b =>
    obtain ⟨-, rfl, rfl⟩ := lowerConst_bool_eq_ok_iff.mp h
    exact lowerConst_bool_eq_ok_iff.mpr ⟨hint 1, rfl, rfl⟩
  | int text =>
    obtain ⟨bits, i, -, hp, rfl, rfl⟩ := lowerConst_int_eq_ok_iff.mp h
    refine lowerConst_int_eq_ok_iff.mpr ⟨bits, i, ?_, hp, rfl, rfl⟩
    show s.types.underlying (.int i.bits) = _
    rw [IntConst.parse_bits hp, hint]
  | float text =>
    obtain ⟨kind, f, -, hp, rfl, rfl⟩ := lowerConst_float_eq_ok_iff.mp h
    refine lowerConst_float_eq_ok_iff.mpr ⟨kind, f, ?_, hp, rfl, rfl⟩
    show s.types.underlying (.float f.kind) = _
    rw [FloatConst.parse_kind hp]
    exact TypeTable.underlying_of_not_named (fun _ h => nomatch h)
  | null =>
    obtain ⟨-, rfl, -⟩ := lowerConst_null_eq_ok_iff.mp h
    exact h
  | none =>
    obtain ⟨-, rfl, rfl⟩ := lowerConst_none_eq_ok_iff.mp h
    exact lowerConst_none_eq_ok_iff.mpr
      ⟨TypeTable.underlying_of_not_named (fun _ h => nomatch h), rfl, rfl⟩
  | struct packed fields =>
    obtain ⟨_, -, -, _, -, rfl⟩ := lowerConst_struct_eq_ok_iff.mp h
    exact h
  | array elems =>
    obtain ⟨_, -, _, -, rfl⟩ := lowerConst_array_eq_ok_iff.mp h
    exact h
  | vector elems =>
    obtain ⟨_, -, _, -, rfl⟩ := lowerConst_vector_eq_ok_iff.mp h
    exact h
  | chars raw =>
    obtain ⟨data, hdata, -, rfl, rfl⟩ := lowerConst_chars_eq_ok_iff.mp h
    exact lowerConst_chars_eq_ok_iff.mpr
      ⟨data, hdata, TypeTable.underlying_of_not_named (fun _ h => nomatch h), rfl, rfl⟩
  | zeroInit =>
    cases h
    rfl
  | undef =>
    cases h
    rfl
  | blockAddress func block =>
    obtain ⟨hsym, -, rfl, rfl⟩ := lowerConst_blockAddress_eq_ok_iff.mp h
    exact lowerConst_blockAddress_eq_ok_iff.mpr
      ⟨hsym, TypeTable.equivalent_refl _ _, rfl, rfl⟩
  | global name =>
    obtain ⟨-, -, -, rfl, -⟩ := lowerConst_global_eq_ok_iff.mp h
    exact h
  | cast op value target =>
    obtain ⟨src, hsrc, dst, hdst, haccepts, -, rfl⟩ := lowerConst_cast_eq_ok_iff.mp h
    exact lowerConst_cast_eq_ok_iff.mpr
      ⟨src, hsrc, dst, hdst, haccepts, TypeTable.equivalent_refl _ _, rfl⟩
  | binary op lhs rhs =>
    obtain ⟨rhsWritten, rhsValue⟩ := rhs
    obtain ⟨l, q₁, hl, hint', rhsTy, hrhsTy, hrhs, r, hr, -, rfl⟩ :=
      lowerConst_binary_eq_ok_iff.mp h
    exact lowerConst_binary_eq_ok_iff.mpr
      ⟨l, q₁, hl, hint', rhsTy, hrhsTy, hrhs, r, hr, TypeTable.equivalent_refl _ _, rfl⟩
  | gep inBounds elem base indices =>
    obtain ⟨elemTy, helemTy, b, q₁, hb, idx, hidx, ty, hty, -, rfl⟩ :=
      lowerConst_gep_eq_ok_iff.mp h
    exact lowerConst_gep_eq_ok_iff.mpr
      ⟨elemTy, helemTy, b, q₁, hb, idx, hidx, ty, hty, TypeTable.equivalent_refl _ _, rfl⟩

/-! ## Checking the written form again -/

mutual

/-- **The written form of a checked constant checks back to it** at the type it was checked at,
queueing the same block addresses. Each form is taken apart by its spec lemma and put together
again from the same facts; an operand written after its type checks again at that type
(`lowerConst_at_ty`), which is well formed (`lowerConst_ty_wellFormed`). -/
theorem lowerConst_toAst (hb : s.types.BodiesWellFormed) :
    ∀ {T : Ty} {c : Ast.Const} {q q' : FixupQueue} {k : Const},
      (s.lowerConst T c).run.run q = (.ok k, q') → T.WellFormed (s.types.contains · = true) →
        k.Readable → (s.lowerConst T k.toAst).run.run q = (.ok k, q')
  | _, .bool b, _, _, _, h, _, _ => by
    obtain ⟨-, rfl, rfl⟩ := lowerConst_bool_eq_ok_iff.mp h
    rw [Const.toAst_int_ofBool]
    exact h
  | _, .int _, _, _, _, h, _, _ => by
    obtain ⟨bits, i, hu, hp, rfl, rfl⟩ := lowerConst_int_eq_ok_iff.mp h
    rw [Const.toAst_int, IntConst.parse_bits hp]
    split
    · -- at width 1 the integer is written as a boolean
      subst bits
      exact lowerConst_bool_eq_ok_iff.mpr ⟨hu, by rw [IntConst.ofBool_of_parse_one hp], rfl⟩
    · exact lowerConst_int_eq_ok_iff.mpr ⟨bits, i, hu, IntConst.parse_render hp, rfl, rfl⟩
  | _, .float _, _, _, _, h, _, hk => by
    obtain ⟨kind, f, hu, hp, rfl, rfl⟩ := lowerConst_float_eq_ok_iff.mp h
    obtain ⟨-, -, hreads⟩ := hk
    rw [FloatConst.parse_kind hp] at hreads
    exact lowerConst_float_eq_ok_iff.mpr ⟨kind, f, hu, hreads, rfl, rfl⟩
  | _, .null, _, _, _, h, _, _ => by
    obtain ⟨-, rfl, -⟩ := lowerConst_null_eq_ok_iff.mp h
    exact h
  | _, .none, _, _, _, h, _, _ => by
    obtain ⟨-, rfl, -⟩ := lowerConst_none_eq_ok_iff.mp h
    exact h
  | _, .struct _ _, _, _, _, h, hT, hk => by
    obtain ⟨fieldTys, hu, hlen, elems, helems, rfl⟩ := lowerConst_struct_eq_ok_iff.mp h
    have hfields := wellFormed_of_underlying hb hT hu
    rw [Ty.WellFormed] at hfields
    refine lowerConst_struct_eq_ok_iff.mpr
      ⟨fieldTys, hu, ?_, elems, lowerFields_toAst hb helems hfields hk, rfl⟩
    rw [Const.length_toAstList, (lowerFields_typedAt helems hlen).length_eq]
  | _, .array _, _, _, _, h, hT, hk => by
    obtain ⟨elem, hu, cs, hcs, rfl⟩ := lowerConst_array_eq_ok_iff.mp h
    have helem := wellFormed_of_underlying hb hT hu
    rw [Ty.WellFormed] at helem
    refine lowerConst_array_eq_ok_iff.mpr ⟨elem, ?_, cs, lowerElems_toAst hb helem hcs hk, rfl⟩
    rw [Const.length_toAstList, (lowerElems_typedAt hcs).1]
    exact hu
  | _, .vector _, _, _, _, h, hT, hk => by
    obtain ⟨elem, hu, cs, hcs, rfl⟩ := lowerConst_vector_eq_ok_iff.mp h
    have helem := wellFormed_of_underlying hb hT hu
    rw [Ty.WellFormed] at helem
    refine lowerConst_vector_eq_ok_iff.mpr ⟨elem, ?_, cs, lowerElems_toAst hb helem hcs hk.2, rfl⟩
    rw [Const.length_toAstList, (lowerElems_typedAt hcs).1]
    exact hu
  | _, .chars _, _, _, _, h, _, _ => by
    obtain ⟨data, -, hu, rfl, rfl⟩ := lowerConst_chars_eq_ok_iff.mp h
    exact lowerConst_chars_eq_ok_iff.mpr ⟨data, Text.unescape_quoteBody data, hu, rfl, rfl⟩
  | _, .zeroInit, _, _, _, h, _, _ => by
    cases h
    rfl
  | _, .undef, _, _, _, h, _, _ => by
    cases h
    rfl
  | _, .blockAddress _ _, _, _, _, h, _, _ => by
    obtain ⟨hsym, hequiv, rfl, rfl⟩ := lowerConst_blockAddress_eq_ok_iff.mp h
    exact lowerConst_blockAddress_eq_ok_iff.mpr
      ⟨hsym, hequiv, by rw [LocalIdent.ofName_toName], by rw [LocalIdent.ofName_toName]⟩
  | _, .global _, _, _, _, h, _, _ => by
    obtain ⟨-, -, -, rfl, -⟩ := lowerConst_global_eq_ok_iff.mp h
    exact h
  | _, .cast _ _ _, _, _, _, h, _, hk => by
    obtain ⟨src, hsrc, dst, hdst, haccepts, hequiv, rfl⟩ := lowerConst_cast_eq_ok_iff.mp h
    exact lowerConst_cast_eq_ok_iff.mpr ⟨src, lowerTypedConst_toAst hb hsrc hk.2.1, dst,
      lowerType_of_wellFormed (wellFormed_of_lowerType hdst), haccepts, hequiv, rfl⟩
  | _, .binary _ _ (.mk _ _), _, _, _, h, _, hk => by
    obtain ⟨l, q₁, hl, hint, rhsTy, hrhsTy, hrhs, r, hr, hequiv, rfl⟩ :=
      lowerConst_binary_eq_ok_iff.mp h
    have hrhsWF := wellFormed_of_lowerType hrhsTy
    -- the right operand is now written after its own type, equivalent to the one it was checked at
    exact lowerConst_binary_eq_ok_iff.mpr ⟨l, q₁, lowerTypedConst_toAst hb hl hk.2.1, hint, r.ty,
      lowerType_of_wellFormed (lowerConst_ty_wellFormed hb hr hrhsWF),
      TypeTable.equivalent_trans (lowerConst_ty_equivalent hr) hrhs, r,
      lowerConst_at_ty (lowerConst_toAst hb hr hrhsWF hk.2.2.2), hequiv, rfl⟩
  | _, .gep _ _ _ _, _, _, _, h, _, hk => by
    obtain ⟨elemTy, helemTy, b, q₁, hbase, idx, hidx, ty, hty, hequiv, rfl⟩ :=
      lowerConst_gep_eq_ok_iff.mp h
    exact lowerConst_gep_eq_ok_iff.mpr
      ⟨elemTy, lowerType_of_wellFormed (wellFormed_of_lowerType helemTy), b, q₁,
        lowerTypedConst_toAst hb hbase hk.2.2.1, idx, lowerTypedConsts_toAst hb hidx hk.2.2.2, ty,
        hty, hequiv, rfl⟩

/-- A checked operand written after its own type checks back to it. -/
theorem lowerTypedConst_toAst (hb : s.types.BodiesWellFormed) :
    ∀ {c : Ast.TypedConst} {q q' : FixupQueue} {k : Const},
      (s.lowerTypedConst c).run.run q = (.ok k, q') → k.Readable →
        (s.lowerTypedConst (.mk k.ty k.toAst)).run.run q = (.ok k, q')
  | .mk _ _, _, _, k, h, hk => by
    obtain ⟨t, ht, h₁⟩ := lowerTypedConst_eq_ok_iff.mp h
    have htWF := wellFormed_of_lowerType ht
    exact lowerTypedConst_eq_ok_iff.mpr
      ⟨k.ty, lowerType_of_wellFormed (lowerConst_ty_wellFormed hb h₁ htWF),
        lowerConst_at_ty (lowerConst_toAst hb h₁ htWF hk)⟩

theorem lowerTypedConsts_toAst (hb : s.types.BodiesWellFormed) :
    ∀ {cs : List Ast.TypedConst} {q q' : FixupQueue} {ks : List Const},
      (s.lowerTypedConsts cs).run.run q = (.ok ks, q') → Const.ReadableList ks →
        (s.lowerTypedConsts (Const.toAstList ks)).run.run q = (.ok ks, q')
  | [], _, _, _, h, _ => by
    cases h
    rfl
  | _ :: _, _, _, _, h, hks => by
    obtain ⟨k, q₁, ks', hk, hks', rfl⟩ := lowerTypedConsts_cons_eq_ok_iff.mp h
    exact lowerTypedConsts_cons_eq_ok_iff.mpr ⟨k, q₁, ks', lowerTypedConst_toAst hb hk hks.2.1,
      lowerTypedConsts_toAst hb hks' hks.2.2, rfl⟩

/-- The elements of an array or vector, each written after its own type, check back to them. -/
theorem lowerElems_toAst (hb : s.types.BodiesWellFormed) {context : String} {elem : Ty}
    (helem : elem.WellFormed (s.types.contains · = true)) :
    ∀ {cs : List Ast.TypedConst} {q q' : FixupQueue} {ks : List Const},
      (s.lowerElems context elem cs).run.run q = (.ok ks, q') → Const.ReadableList ks →
        (s.lowerElems context elem (Const.toAstList ks)).run.run q = (.ok ks, q')
  | [], _, _, _, h, _ => by
    cases h
    rfl
  | .mk _ _ :: _, _, _, _, h, hks => by
    obtain ⟨-, -, -, c, q₁, cs, hc, hcs, rfl⟩ := lowerElems_cons_eq_ok_iff.mp h
    exact lowerElems_cons_eq_ok_iff.mpr
      ⟨c.ty, lowerType_of_wellFormed (lowerConst_ty_wellFormed hb hc helem),
        lowerConst_ty_equivalent hc, c, q₁, cs, lowerConst_toAst hb hc helem hks.2.1,
        lowerElems_toAst hb helem hcs hks.2.2, rfl⟩

/-- The elements of a struct, each written after its own type, check back to them. -/
theorem lowerFields_toAst (hb : s.types.BodiesWellFormed) :
    ∀ {tys : List Ty} {cs : List Ast.TypedConst} {q q' : FixupQueue} {ks : List Const},
      (s.lowerFields tys cs).run.run q = (.ok ks, q') →
        Ty.WellFormedList (s.types.contains · = true) tys → Const.ReadableList ks →
        (s.lowerFields tys (Const.toAstList ks)).run.run q = (.ok ks, q')
  | _ :: _, .mk _ _ :: _, _, _, _, h, htys, hks => by
    obtain ⟨-, -, -, c, q₁, cs, hc, hcs, rfl⟩ := lowerFields_cons_eq_ok_iff.mp h
    rw [Ty.WellFormedList] at htys
    exact lowerFields_cons_eq_ok_iff.mpr
      ⟨c.ty, lowerType_of_wellFormed (lowerConst_ty_wellFormed hb hc htys.1),
        lowerConst_ty_equivalent hc, c, q₁, cs, lowerConst_toAst hb hc htys.1 hks.2.1,
        lowerFields_toAst hb hcs htys.2 hks.2.2, rfl⟩
  | [], [], _, _, _, h, _, _ => by
    cases h
    rfl
  | [], _ :: _, _, _, _, h, _, _ => by
    cases h
    rfl
  | _ :: _, [], _, _, _, h, _, _ => by
    cases h
    rfl

end

end Scope

namespace Scope

variable {s : Scope} {T : Ty} {q q' : FixupQueue} {k : Const}

/-- **Printing a checked constant and lowering what is read back is the identity.** Let `k` be a
constant checked at a type `T` the scope accepts, in a scope whose named types have well-formed
bodies, and let the text of `k` read back (`Const.Readable`). Then reading the text of `k`,
followed by anything that ends a constant, consumes exactly that text and gives `k.toAst`, and
checking `k.toAst` at `T` gives `k` again and queues the same block addresses. -/
theorem lowerConst_render_reads_back (hb : s.types.BodiesWellFormed) (hT : s.lowerType T = .ok T)
    {c : Ast.Const} (h : (s.lowerConst T c).run.run q = (.ok k, q')) (hk : k.Readable)
    {rest : List Char} (hrest : Ast.Reader.StopsConst rest) (pos : Nat) :
    let cur : Ast.Cursor := ⟨k.render.toList ++ rest, pos⟩
    (Ast.Reader.parseConstant (Ast.Reader.fuelFor cur)).run cur =
        .ok (k.toAst, cur.advance k.render.length) ∧
      (s.lowerConst T k.toAst).run.run q = (.ok k, q') :=
  ⟨Ast.Reader.parseConstant_render hk hrest pos,
    lowerConst_toAst hb h (wellFormed_of_lowerType hT) hk⟩

/-- A flag and a null pointer checked at `{ i1, i8* }`: the struct's text, followed by a comma,
reads back as `{ i1 true, i8* null }`, which checks back to the same struct. -/
theorem flagAndNull_reads_back :
    let T : Ty := .struct false [.int 1, .ptr .i8]
    let k : Const := .struct T false [.int (IntConst.ofBool true), .null (.ptr .i8)]
    let cur : Ast.Cursor := ⟨k.render.toList ++ [','], 0⟩
    (({} : Scope).lowerConst T
        (.struct false [.mk (.int 1) (.bool true), .mk (.ptr .i8) .null])).run.run {} =
      (.ok k, {}) ∧
    ((Ast.Reader.parseConstant (Ast.Reader.fuelFor cur)).run cur =
        .ok (k.toAst, cur.advance k.render.length) ∧
      (({} : Scope).lowerConst T k.toAst).run.run {} = (.ok k, {})) := by
  intro T k cur
  have h : (({} : Scope).lowerConst T
      (.struct false [.mk (.int 1) (.bool true), .mk (.ptr .i8) .null])).run.run {} =
      (.ok k, {}) := rfl
  have hb : ({} : Scope).types.BodiesWellFormed := fun _ _ hbody => nomatch hbody
  have hk : k.Readable := ⟨rfl, trivial, rfl, trivial, trivial⟩
  exact ⟨h, lowerConst_render_reads_back hb rfl h hk (fun _ hch => by cases hch; decide) 0⟩

end Scope

end LlvmAsm
