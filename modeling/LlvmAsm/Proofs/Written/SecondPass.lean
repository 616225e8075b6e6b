import LlvmAsm.Proofs.Written.FirstPass
import LlvmAsm.Proofs.Lowering.Relowering
import LlvmAsm.Proofs.Lowering.SecondPass

/-!
# `Proofs.Written.SecondPass` — the second pass over the written form of a body

The second pass over a checked body built each operand, instruction, terminator and block from the
names its first pass entered. Its written form refers to the same locals by the names they are
printed with. When those names resolve, in the locals of the written form's own first pass, to the
same slots, at equivalent types and at `label` for a label (`Locals.Rechecks`), the second pass
over the written form builds the same operands, instructions, terminators and blocks again, and
queues the same block addresses.

Each lemma takes a successful run of the second pass apart and runs its written form step by step
from the same queue. Two things the text must keep: every constant reads back (`Value.Readable`),
and a call's signature is what its written form reads as (`Call.KeepsSignature`).
Main statement: `Scope.lowerBlock_written`.
-/

namespace LlvmAsm

/-- An operand whose written form checks back: a constant that is `Const.Readable`. -/
def Value.Readable : Value → Prop
  | .reg .. => True
  | .const k => k.Readable

/-- **The written names recheck the names of a body**: each name `l` resolves to a slot, the slot's
written name resolves to in `l'`, at an equivalent type, and at `label` itself when the name was a
label. -/
def Locals.Rechecks (types : TypeTable) (t : LocalTable) (l l' : Locals) : Prop :=
  ∀ name slot ty, l.get name = .ok (slot, ty) →
    ∃ ty', l'.get (t.name slot) = .ok (slot, ty') ∧ types.equivalent ty' ty ∧
      (ty = .label → ty' = .label)

namespace Locals

variable {l l' : Locals} {types : TypeTable} {t : LocalTable}

theorem block_of_get {name : Ast.LocalName} {slot : Nat} (h : l.get name = .ok (slot, .label)) :
    l.block name = .ok slot := by
  unfold block
  refine Except.bind_eq_ok_iff.mpr ⟨_, h, ?_⟩
  simp only [ne_eq, not_true_eq_false, if_false]
  rfl

/-- A branch target's written name is a branch target to the same block. -/
theorem Rechecks.block (hR : l.Rechecks types t l') {name : Ast.LocalName} {slot : Nat}
    (h : l.block name = .ok slot) : l'.block (t.name slot) = .ok slot := by
  obtain ⟨ty', hget, -, hlabel⟩ := hR name slot .label (get_of_block h)
  rw [hlabel rfl] at hget
  exact block_of_get hget

end Locals

namespace LowerM

variable {α : Type}

/-- A check that passes runs what follows it from the same queue. -/
theorem run_guard_of_false {c : Bool} {x : LowerM Unit} {y : LowerM α} (hc : c = false)
    (q : FixupQueue) : (if c = true then x >>= (fun _ => y) else y).run.run q = y.run.run q := by
  subst hc
  rfl

/-- **A traversal runs again** on its results, when each step does on its own result. -/
theorem mapM_rerun {γ : Type} {f : γ → LowerM α} {g : α → LowerM α} :
    ∀ {xs : List γ} {q q' : FixupQueue} {ys : List α}, (xs.mapM f).run.run q = (.ok ys, q') →
      (∀ {x q₁ q₂ y}, (f x).run.run q₁ = (.ok y, q₂) → y ∈ ys → (g y).run.run q₁ = (.ok y, q₂)) →
      (ys.mapM g).run.run q = (.ok ys, q')
  | [], q, q', ys, h, _ => by
    rw [List.mapM_nil, run_pure] at h
    cases h
    rfl
  | x :: xs, q, q', ys, h, hg => by
    obtain ⟨y, ys', q₁, hy, hys, rfl⟩ := mapM_cons_ok h
    have hrest := mapM_rerun hys fun hx hy' => hg hx (List.mem_cons_of_mem _ hy')
    rw [List.mapM_cons, run_bind_of_ok (hg hy List.mem_cons_self), run_bind_of_ok hrest]
    rfl

end LowerM

namespace Scope

variable {s : Scope} {t : LocalTable} {l l' : Locals} {q q' : FixupQueue}

/-! ## Operands -/

/-- The type of a checked operand is well formed when the expected type is. -/
theorem lowerValue_ty_wellFormed (hb : s.types.BodiesWellFormed) {expected : Ty} {v : Ast.Value}
    {w : Value} (h : (s.lowerValue l expected v).run.run q = (.ok w, q'))
    (hT : expected.WellFormed (s.types.contains · = true)) :
    w.ty.WellFormed (s.types.contains · = true) := by
  cases v with
  | localRef name =>
    unfold lowerValue at h
    obtain ⟨⟨slot, ty⟩, -, h₁⟩ := LowerM.ofExcept_bind_ok h
    obtain ⟨-, h₂⟩ := LowerM.guard_ok (mismatchAt_fails _ _ _) h₁
    cases h₂
    exact hT
  | const c =>
    unfold lowerValue at h
    obtain ⟨k, q₁, hk, h₁⟩ := LowerM.bind_ok h
    cases h₁
    exact lowerConst_ty_wellFormed hb hk hT

/-- An operand checks at its own type as at the type it was checked at. -/
theorem lowerValue_at_ty {expected : Ty} {v : Ast.Value} {w : Value}
    (h : (s.lowerValue l expected v).run.run q = (.ok w, q')) :
    (s.lowerValue l w.ty v).run.run q = (.ok w, q') := by
  cases v with
  | localRef name =>
    have h' := h
    unfold lowerValue at h'
    obtain ⟨⟨slot, ty⟩, -, h₁⟩ := LowerM.ofExcept_bind_ok h'
    obtain ⟨-, h₂⟩ := LowerM.guard_ok (mismatchAt_fails _ _ _) h₁
    cases h₂
    exact h
  | const c =>
    unfold lowerValue at h
    obtain ⟨k, q₁, hk, h₁⟩ := LowerM.bind_ok h
    cases h₁
    dsimp only [lowerValue, Value.ty]
    rw [LowerM.run_bind_of_ok (lowerConst_at_ty hk)]
    rfl

/-- The type of an operand checked after its type is well formed. -/
theorem lowerTypedValue_ty_wellFormed (hb : s.types.BodiesWellFormed) {v : Ast.TypedValue}
    {w : Value} (h : (s.lowerTypedValue l v).run.run q = (.ok w, q')) :
    w.ty.WellFormed (s.types.contains · = true) := by
  unfold lowerTypedValue at h
  obtain ⟨ty, hty, h₁⟩ := LowerM.ofExcept_bind_ok h
  exact lowerValue_ty_wellFormed hb h₁ (wellFormed_of_lowerType hty)

/-- The signature read off a call has well-formed types. -/
theorem callSignature_wellFormed {c : Ast.Call} {sig : FuncSig} (h : s.callSignature c = .ok sig) :
    sig.toTy.WellFormed (s.types.contains · = true) := by
  unfold callSignature at h
  obtain ⟨ty, hty, h₁⟩ := Except.bind_eq_ok_iff.mp h
  have hwf := wellFormed_of_lowerType hty
  split at h₁
  · cases h₁
    exact hwf
  · obtain ⟨params, hparams, h₂⟩ := Except.bind_eq_ok_iff.mp h₁
    cases h₂
    obtain ⟨hwfs, rfl⟩ := (lowerTypes_eq_ok_iff s _ _).mp hparams
    exact ⟨hwf, hwfs⟩

/-- **A call that keeps its signature in writing** has that signature read off its written form. -/
theorem callSignature_toAst {C : Call} (hwf : C.sig.toTy.WellFormed (s.types.contains · = true))
    (hkeep : C.KeepsSignature) : s.callSignature (C.toAst t) = .ok C.sig := by
  unfold callSignature
  cases hv : C.sig.variadic with
  | true =>
    -- the text shows the whole signature
    have hty : (C.toAst t).ty = C.sig.toTy := by simp [Call.toAst, hv]
    rw [hty]
    refine Except.bind_eq_ok_iff.mpr ⟨_, lowerType_of_wellFormed hwf, ?_⟩
    rfl
  | false =>
    -- the text shows the return type, and the arguments' types stand for the parameters
    obtain hv' | ⟨hparams, hret⟩ := hkeep
    · rw [hv] at hv'
      cases hv'
    have hty : (C.toAst t).ty = C.sig.ret := by simp [Call.toAst, hv]
    have hargs : (C.toAst t).args.map (·.ty) = C.sig.params := by
      simp [Call.toAst, hparams, Function.comp_def, Value.toTypedAst]
    rw [hty]
    refine Except.bind_eq_ok_iff.mpr ⟨_, lowerType_of_wellFormed hwf.1, ?_⟩
    split
    · rename_i ret params variadic hfunc
      exact absurd hfunc (hret ret params variadic)
    · rw [hargs, (lowerTypes_eq_ok_iff s _ _).mpr ⟨hwf.2, rfl⟩]
      rw [← hv]
      rfl

variable (hb : s.types.BodiesWellFormed) (hR : l.Rechecks s.types t l')
include hb hR

/-- **An operand's written form checks back to it** at the type it was checked at. -/
theorem lowerValue_written {expected : Ty} {v : Ast.Value} {w : Value}
    (h : (s.lowerValue l expected v).run.run q = (.ok w, q'))
    (hT : expected.WellFormed (s.types.contains · = true)) (hw : w.Readable) :
    (s.lowerValue l' expected (w.toAst t)).run.run q = (.ok w, q') := by
  cases v with
  | localRef name =>
    unfold lowerValue at h
    obtain ⟨⟨slot, ty⟩, hget, h₁⟩ := LowerM.ofExcept_bind_ok h
    obtain ⟨hequiv, h₂⟩ := LowerM.guard_ok (mismatchAt_fails _ _ _) h₁
    cases h₂
    -- the written name finds the same slot, at a type equivalent to the one used
    obtain ⟨ty', hget', hty', -⟩ := hR name slot ty hget
    have hequiv' : s.types.equivalent ty' expected :=
      TypeTable.equivalent_trans hty' (by simpa using hequiv)
    simp only [Value.toAst, lowerValue]
    rw [LowerM.run_ofExcept_bind_of_ok hget']
    simp only [hequiv', Bool.not_true, Bool.false_eq_true, if_false]
    rfl
  | const c =>
    unfold lowerValue at h
    obtain ⟨k, q₁, hk, h₁⟩ := LowerM.bind_ok h
    cases h₁
    simp only [Value.toAst, lowerValue]
    rw [LowerM.run_bind_of_ok (lowerConst_toAst hb hk hT hw)]
    rfl

/-- **An operand written after its own type checks back to it.** -/
theorem lowerTypedValue_written {v : Ast.TypedValue} {w : Value}
    (h : (s.lowerTypedValue l v).run.run q = (.ok w, q')) (hw : w.Readable) :
    (s.lowerTypedValue l' (w.toTypedAst t)).run.run q = (.ok w, q') := by
  unfold lowerTypedValue at h
  obtain ⟨ty, hty, h₁⟩ := LowerM.ofExcept_bind_ok h
  have hwf := lowerValue_ty_wellFormed hb h₁ (wellFormed_of_lowerType hty)
  dsimp only [lowerTypedValue, Value.toTypedAst]
  rw [LowerM.run_ofExcept_bind_of_ok (lowerType_of_wellFormed hwf)]
  exact lowerValue_written hb hR (lowerValue_at_ty h₁) hwf hw

/-! ## Calls and instructions -/

/-- **A call's written form checks back to it**, when it keeps its signature in writing. -/
theorem lowerCall_written {c : Ast.Call} {C : Call}
    (h : (s.lowerCall l c).run.run q = (.ok C, q')) (hkeep : C.KeepsSignature)
    (hread : ∀ v ∈ C.values, v.Readable) :
    (s.lowerCall l' (C.toAst t)).run.run q = (.ok C, q') := by
  unfold lowerCall at h
  obtain ⟨sig, hsig, h₁⟩ := LowerM.ofExcept_bind_ok h
  obtain ⟨callee, q₁, hcallee, h₂⟩ := LowerM.bind_ok h₁
  obtain ⟨args, q₂, hargs, h₃⟩ := LowerM.bind_ok h₂
  dsimp only at h₃
  obtain ⟨hok, h₄⟩ := LowerM.guard_ok (mismatchAt_fails _ _ _) h₃
  cases h₄
  have hwf := callSignature_wellFormed hsig
  -- the callee, then the arguments, each written after its own type
  have hcallee' := lowerValue_written hb hR hcallee hwf (hread callee List.mem_cons_self)
  have hargs' : ((args.map (·.toTypedAst t)).mapM (s.lowerTypedValue l')).run.run q₁ =
      (.ok args, q') := by
    rw [List.mapM_map]
    exact LowerM.mapM_rerun hargs fun hw hmem =>
      lowerTypedValue_written hb hR hw (hread _ (List.mem_cons_of_mem _ hmem))
  unfold lowerCall
  rw [LowerM.run_ofExcept_bind_of_ok (callSignature_toAst hwf hkeep)]
  dsimp only [Call.toAst]
  rw [LowerM.run_bind_of_ok hcallee', LowerM.run_bind_of_ok hargs']
  rw [LowerM.run_guard_of_false hok]
  rfl

/-- **An instruction's written form checks back to it**, at the result slot it was given. -/
theorem lowerInst_written {r : Option Nat} {k : Ast.InstKind} {I : Instruction}
    (h : (s.lowerInst l r k).run.run q = (.ok I, q')) (hread : ∀ v ∈ I.kind.values, v.Readable)
    (hkeep : ∀ c, I.kind.call? = some c → c.KeepsSignature) :
    (s.lowerInst l' I.result (I.kind.toAst t)).run.run q = (.ok I, q') := by
  cases k with
  | binary op lhs rhs =>
    unfold lowerInst at h
    obtain ⟨a, q₁, ha, h₁⟩ := LowerM.bind_ok h
    dsimp only at h₁
    split at h₁
    · rename_i bits hbits
      obtain ⟨b, q₂, hb', h₂⟩ := LowerM.bind_ok h₁
      cases h₂
      have ha' := lowerTypedValue_written hb hR ha (hread a (by simp [InstKind.values]))
      have hb'' := lowerValue_written hb hR hb' (lowerTypedValue_ty_wellFormed hb ha)
        (hread b (by simp [InstKind.values]))
      simp only [InstKind.toAst, lowerInst]
      rw [LowerM.run_bind_of_ok ha']
      simp only [hbits]
      rw [LowerM.run_bind_of_ok hb'']
      rfl
    · exact absurd h₁ mismatchAt_bind_ne_ok
  | icmp pred lhs rhs =>
    unfold lowerInst at h
    obtain ⟨a, q₁, ha, h₁⟩ := LowerM.bind_ok h
    dsimp only at h₁
    -- an integer or a pointer operand passes, in the written form as in the original
    split at h₁
    case h_3 => exact absurd h₁ mismatchAt_bind_ne_ok
    case h_1 | h_2 =>
      rename_i hu
      obtain ⟨b, q₂, hb', h₂⟩ := LowerM.bind_ok h₁
      cases h₂
      have ha' := lowerTypedValue_written hb hR ha (hread a (by simp [InstKind.values]))
      have hb'' := lowerValue_written hb hR hb' (lowerTypedValue_ty_wellFormed hb ha)
        (hread b (by simp [InstKind.values]))
      simp only [InstKind.toAst, lowerInst]
      rw [LowerM.run_bind_of_ok ha']
      simp only [hu]
      rw [LowerM.run_bind_of_ok hb'']
      rfl
  | alloca elem =>
    unfold lowerInst at h
    obtain ⟨e, he, h₁⟩ := LowerM.ofExcept_bind_ok h
    cases h₁
    simp only [InstKind.toAst, lowerInst]
    rw [LowerM.run_ofExcept_bind_of_ok (lowerType_of_wellFormed (wellFormed_of_lowerType he))]
    rfl
  | load ty ptr =>
    unfold lowerInst at h
    obtain ⟨T, hT, h₁⟩ := LowerM.ofExcept_bind_ok h
    obtain ⟨p, q₁, hp, h₂⟩ := LowerM.bind_ok h₁
    obtain ⟨_, q₂, hcheck, h₃⟩ := LowerM.bind_ok h₂
    cases h₃
    have hp' := lowerTypedValue_written hb hR hp (hread p (by simp [InstKind.values]))
    simp only [InstKind.toAst, lowerInst]
    rw [LowerM.run_ofExcept_bind_of_ok (lowerType_of_wellFormed (wellFormed_of_lowerType hT)),
      LowerM.run_bind_of_ok hp', LowerM.run_bind_of_ok hcheck]
    rfl
  | store value ptr =>
    unfold lowerInst at h
    obtain ⟨v, q₁, hv, h₁⟩ := LowerM.bind_ok h
    obtain ⟨p, q₂, hp, h₂⟩ := LowerM.bind_ok h₁
    obtain ⟨_, q₃, hcheck, h₃⟩ := LowerM.bind_ok h₂
    cases h₃
    have hv' := lowerTypedValue_written hb hR hv (hread v (by simp [InstKind.values]))
    have hp' := lowerTypedValue_written hb hR hp (hread p (by simp [InstKind.values]))
    simp only [InstKind.toAst, lowerInst]
    rw [LowerM.run_bind_of_ok hv', LowerM.run_bind_of_ok hp', LowerM.run_bind_of_ok hcheck]
    rfl
  | phi ty incoming =>
    unfold lowerInst at h
    obtain ⟨T, hT, h₁⟩ := LowerM.ofExcept_bind_ok h
    obtain ⟨pairs, q₁, hpairs, h₂⟩ := LowerM.bind_ok h₁
    cases h₂
    have hwf := wellFormed_of_lowerType hT
    simp only [InstKind.toAst, lowerInst]
    rw [LowerM.run_ofExcept_bind_of_ok (lowerType_of_wellFormed hwf), List.mapM_map]
    rw [LowerM.run_bind_of_ok (LowerM.mapM_rerun hpairs ?_)]
    · rfl
    -- each incoming value checks back, and each incoming block's written name is a label
    intro x q₂ q₃ y hstep hmem
    obtain ⟨v, b⟩ := x
    obtain ⟨w, slot⟩ := y
    obtain ⟨w', q₄, hw, h₃⟩ := LowerM.bind_ok hstep
    obtain ⟨slot', hslot, h₄⟩ := LowerM.ofExcept_bind_ok h₃
    cases h₄
    have hw' := lowerValue_written hb hR hw hwf
      (hread w (List.mem_map.mpr ⟨(w, slot), hmem, rfl⟩))
    dsimp only [Function.comp_def]
    rw [LowerM.run_bind_of_ok hw', LowerM.run_ofExcept_bind_of_ok (hR.block hslot)]
    rfl
  | call c =>
    unfold lowerInst at h
    obtain ⟨C, q₁, hC, h₁⟩ := LowerM.bind_ok h
    cases h₁
    simp only [InstKind.toAst, lowerInst]
    rw [LowerM.run_bind_of_ok (lowerCall_written hb hR hC (hkeep C rfl) hread)]
    rfl

/-! ## Terminators and blocks -/

/-- **A terminator's written form checks back to it**; an invoke's result takes the slot of its
site. -/
theorem lowerTerm_written {retTy : Ty} {r : Option Nat} {term : Ast.Terminator} {T : Terminator}
    (h : (s.lowerTerm l retTy r term).run.run q = (.ok T, q'))
    (hread : ∀ v ∈ T.values, v.Readable) (hkeep : ∀ c, T.call? = some c → c.KeepsSignature) :
    (s.lowerTerm l' retTy (T.localDef?.map (·.slot)) (T.toAst t)).run.run q = (.ok T, q') := by
  cases term with
  | ret value =>
    cases value with
    | none =>
      have h' := h
      simp only [lowerTerm] at h'
      split at h'
      · rw [run_mismatchAt] at h'
        cases h'
      · cases h'
        exact h
    | some value =>
      simp only [lowerTerm] at h
      obtain ⟨v, q₁, hv, h₁⟩ := LowerM.bind_ok h
      obtain ⟨hok, h₂⟩ := LowerM.guard_ok (mismatchAt_fails _ _ _) h₁
      cases h₂
      have hv' := lowerTypedValue_written hb hR hv (hread v (by simp [Terminator.values]))
      simp only [Terminator.toAst, Option.map_some, lowerTerm]
      rw [LowerM.run_bind_of_ok hv', LowerM.run_guard_of_false hok]
      rfl
  | br target =>
    simp only [lowerTerm] at h
    obtain ⟨slot, hslot, h₁⟩ := LowerM.ofExcept_bind_ok h
    cases h₁
    simp only [Terminator.toAst, lowerTerm]
    rw [LowerM.run_ofExcept_bind_of_ok (hR.block hslot)]
    rfl
  | condBr cond thenBlock elseBlock =>
    simp only [lowerTerm] at h
    obtain ⟨c, q₁, hc, h₁⟩ := LowerM.bind_ok h
    obtain ⟨hok, h₂⟩ := LowerM.guard_ok (mismatchAt_fails _ _ _) h₁
    obtain ⟨a, ha, h₃⟩ := LowerM.ofExcept_bind_ok h₂
    obtain ⟨b, hb', h₄⟩ := LowerM.ofExcept_bind_ok h₃
    cases h₄
    have hc' := lowerTypedValue_written hb hR hc (hread c (by simp [Terminator.values]))
    simp only [Terminator.toAst, lowerTerm]
    rw [LowerM.run_bind_of_ok hc', LowerM.run_guard_of_false hok,
      LowerM.run_ofExcept_bind_of_ok (hR.block ha), LowerM.run_ofExcept_bind_of_ok (hR.block hb')]
    rfl
  | unreachable =>
    simp only [lowerTerm] at h
    cases h
    rfl
  | invoke res call normal unwind =>
    simp only [lowerTerm] at h
    obtain ⟨C, q₁, hC, h₁⟩ := LowerM.bind_ok h
    obtain ⟨n, hn, h₂⟩ := LowerM.ofExcept_bind_ok h₁
    obtain ⟨u, hu, h₃⟩ := LowerM.ofExcept_bind_ok h₂
    cases h₃
    have hC' := lowerCall_written hb hR hC (hkeep C rfl) hread
    simp only [Terminator.toAst, lowerTerm]
    rw [LowerM.run_bind_of_ok hC', LowerM.run_ofExcept_bind_of_ok (hR.block hn),
      LowerM.run_ofExcept_bind_of_ok (hR.block hu)]
    rfl

/-- **A block's written form checks back to it**, with what its first pass declares. -/
theorem lowerBlock_written {retTy : Ty} {b : Ast.Block} {d : DeclaredBlock} {B : Block}
    (h : (s.lowerBlock l retTy b d).run.run q = (.ok B, q'))
    (hread : ∀ v ∈ B.values, v.Readable) (hkeep : ∀ c ∈ B.calls, c.KeepsSignature) :
    (s.lowerBlock l' retTy (B.toAst t) B.declared).run.run q = (.ok B, q') := by
  unfold lowerBlock at h
  obtain ⟨insts, q₁, hinsts, h₁⟩ := LowerM.bind_ok h
  obtain ⟨term, q₂, hterm, h₂⟩ := LowerM.bind_ok h₁
  cases h₂
  have hterm' := lowerTerm_written hb hR hterm
    (fun v hv => hread v (List.mem_append_right _ hv))
    (fun c hc => hkeep c (List.mem_append_right _ (by simp [hc])))
  simp only [lowerBlock, Block.toAst, Block.declared, List.zip_map', List.mapM_map]
  rw [LowerM.run_bind_of_ok (LowerM.mapM_rerun hinsts ?_), LowerM.run_bind_of_ok hterm']
  · rfl
  -- each instruction checks back, its operands and call being those of the block
  intro x q₃ q₄ I hI hmem
  obtain ⟨i, r⟩ := x
  exact lowerInst_written hb hR hI
    (fun v hv => hread v (List.mem_append_left _ (List.mem_flatMap.mpr ⟨I, hmem, hv⟩)))
    (fun c hc => hkeep c (List.mem_append_left _ (List.mem_filterMap.mpr ⟨I, hmem, hc⟩)))

end Scope

end LlvmAsm
