import LlvmAsm.Proofs.Lowering.ConstantTypes

/-!
# `Proofs.Lowering.WellTypedConstants` — checked constants are well typed throughout

`lowerConst_ty_equivalent` says that a checked constant has its expected type. Here the same is
said of every part of it, with the shape each form has: `Const.TypedAt t T k` relates a checked
constant `k` to the type `T` it was checked at, one rule per form.

* A struct constant has a struct type under its names, of its own packing, and its elements are
  typed at the fields, one element per field.
* An array or vector constant has an array or vector type under its names, as many elements as
  that type's length, each typed at the element type.
* A character array `[N x i8]` is exactly what the expected type is under its names.
* A cast goes between types the cast accepts; a binary expression has an integer left operand
  and a right operand of an equivalent type; a `getelementptr` stores the result type its element
  type, base and indices give. Each operand is typed at the type written before it.

Main statement: `lowerConst_typedAt` — every constant `lowerConst` returns is typed at its
expected type.
-/

namespace LlvmAsm

/-- Whether a checked constant has no parts whose types are checked: a literal, `null`, `none`,
`zeroinitializer`, `undef`, a block address or a global. -/
def Const.isLeaf : Const → Bool
  | .struct .. | .array .. | .vector .. | .chars _ | .cast .. | .binary .. | .gep .. => false
  | _ => true

/-- A checked constant is typed at the type it was checked at, and so is each of its parts. -/
inductive Const.TypedAt (t : TypeTable) : Ty → Const → Prop
  | leaf {T : Ty} {k : Const} : k.isLeaf → t.equivalent k.ty T → TypedAt t T k
  | struct {T ty : Ty} {packed : Bool} {fields : List Ty} {elems : List Const} :
      t.equivalent ty T → t.underlying ty = .struct packed fields →
      List.Forall₂ (TypedAt t) fields elems → TypedAt t T (.struct ty packed elems)
  | array {T ty elem : Ty} {len : Nat} {elems : List Const} :
      t.equivalent ty T → t.underlying ty = .array len elem → elems.length = len →
      (∀ e ∈ elems, TypedAt t elem e) → TypedAt t T (.array ty elems)
  | vector {T ty elem : Ty} {len : Nat} {elems : List Const} :
      t.equivalent ty T → t.underlying ty = .vector len elem → elems.length = len →
      (∀ e ∈ elems, TypedAt t elem e) → TypedAt t T (.vector ty elems)
  | chars {T : Ty} {data : List UInt8} :
      t.equivalent (.array data.length .i8) T → t.underlying T = .array data.length .i8 →
      TypedAt t T (.chars data)
  | cast {T S : Ty} {op : CastOp} {value : Const} {target : Ty} :
      t.equivalent target T → op.accepts t value.ty target → TypedAt t S value →
      TypedAt t T (.cast op value target)
  | binary {T S R : Ty} {op : BinaryOp} {lhs rhs : Const} {bits : Nat} :
      t.equivalent lhs.ty T → t.underlying lhs.ty = .int bits → t.equivalent rhs.ty lhs.ty →
      TypedAt t S lhs → TypedAt t R rhs → TypedAt t T (.binary op lhs rhs)
  | gep {T S elem ty : Ty} {inBounds : Bool} {base : Const} {indices : List Const}
      {indexTys : List Ty} :
      t.equivalent ty T → gepResultType t elem base.ty indices = .ok ty → TypedAt t S base →
      List.Forall₂ (TypedAt t) indexTys indices → TypedAt t T (.gep inBounds elem base indices ty)

namespace Const.TypedAt

variable {t : TypeTable} {T : Ty} {k : Const}

/-- A typed constant has a type equivalent to the one it is typed at. -/
theorem equivalent (h : k.TypedAt t T) : t.equivalent k.ty T := by
  cases h with
  | leaf _ hequiv => exact hequiv
  | struct hequiv _ _ => exact hequiv
  | array hequiv _ _ _ => exact hequiv
  | vector hequiv _ _ _ => exact hequiv
  | chars hequiv _ => exact hequiv
  | cast hequiv _ _ => exact hequiv
  | binary hequiv _ _ _ _ => exact hequiv
  | gep hequiv _ _ _ => exact hequiv

end Const.TypedAt

namespace Scope

variable {s : Scope}

mutual

/-- **A checked constant is typed at its expected type**, and so is each of its parts. -/
theorem lowerConst_typedAt :
    ∀ {expected : Ty} {c : Ast.Const} {q q' : FixupQueue} {k : Const},
      (s.lowerConst expected c).run.run q = (.ok k, q') → k.TypedAt s.types expected
  | _, .bool _, _, _, _, h => by
    have hequiv := lowerConst_ty_equivalent h
    unfold lowerConst at h
    split at h
    · cases h; exact .leaf rfl hequiv
    · cases h
  | _, .int _, _, _, _, h => by
    have hequiv := lowerConst_ty_equivalent h
    unfold lowerConst at h
    split at h
    · obtain ⟨i, q₁, -, hk⟩ := LowerM.bind_ok h
      cases hk
      exact .leaf rfl hequiv
    · cases h
  | _, .float _, _, _, _, h => by
    have hequiv := lowerConst_ty_equivalent h
    unfold lowerConst at h
    split at h
    · obtain ⟨f, q₁, -, hk⟩ := LowerM.bind_ok h
      cases hk
      exact .leaf rfl hequiv
    · cases h
  | _, .null, _, _, _, h => by
    have hequiv := lowerConst_ty_equivalent h
    unfold lowerConst at h
    split at h
    · cases h; exact .leaf rfl hequiv
    · cases h
  | _, .none, _, _, _, h => by
    have hequiv := lowerConst_ty_equivalent h
    unfold lowerConst at h
    split at h
    · cases h; exact .leaf rfl hequiv
    · cases h
  | _, .struct packed fields, _, _, _, h => by
    unfold lowerConst at h
    split at h
    · rename_i p fieldTys hu
      split at h
      · rename_i hcheck
        obtain ⟨elems, q₁, helems, hk⟩ := LowerM.bind_ok h
        cases hk
        simp only [Bool.and_eq_true, decide_eq_true_eq] at hcheck
        obtain ⟨rfl, hlen⟩ := hcheck
        exact .struct (TypeTable.equivalent_refl _ _) hu (lowerFields_typedAt helems hlen)
      · cases h
    · cases h
  | _, .array elems, _, _, _, h => by
    unfold lowerConst at h
    split at h
    · rename_i len elem hu
      split at h
      · cases h
      · rename_i hlen
        obtain ⟨cs, q₁, hcs, hk⟩ := LowerM.bind_ok h
        cases hk
        obtain ⟨hcount, hall⟩ := lowerElems_typedAt hcs
        exact .array (TypeTable.equivalent_refl _ _) hu (hcount.trans (Decidable.of_not_not hlen).symm)
          hall
    · cases h
  | _, .vector elems, _, _, _, h => by
    unfold lowerConst at h
    split at h
    · rename_i len elem hu
      split at h
      · cases h
      · rename_i hlen
        obtain ⟨cs, q₁, hcs, hk⟩ := LowerM.bind_ok h
        cases hk
        obtain ⟨hcount, hall⟩ := lowerElems_typedAt hcs
        exact .vector (TypeTable.equivalent_refl _ _) hu (hcount.trans (Decidable.of_not_not hlen).symm)
          hall
    · cases h
  | _, .chars _, _, _, _, h => by
    have hequiv := lowerConst_ty_equivalent h
    unfold lowerConst at h
    split at h
    · cases h
    · dsimp only at h
      split at h
      · cases h
      · rename_i hu
        cases h
        exact .chars hequiv (Decidable.of_not_not hu)
  | _, .zeroInit, _, _, _, h => by
    have hequiv := lowerConst_ty_equivalent h
    cases h
    exact .leaf rfl hequiv
  | _, .undef, _, _, _, h => by
    have hequiv := lowerConst_ty_equivalent h
    cases h
    exact .leaf rfl hequiv
  | _, .blockAddress _ _, _, _, _, h => by
    have hequiv := lowerConst_ty_equivalent h
    unfold lowerConst at h
    dsimp only at h
    split at h
    · obtain ⟨-, h₁⟩ := LowerM.guard_ok (mismatchAt_fails _ _ _) h
      obtain ⟨_, q₂, -, h₂⟩ := LowerM.bind_ok h₁
      cases h₂
      exact .leaf rfl hequiv
    · obtain ⟨_, q₁, hthrow, -⟩ := LowerM.bind_ok h
      cases hthrow
  | _, .global _, _, _, _, h => by
    have hequiv := lowerConst_ty_equivalent h
    unfold lowerConst at h
    split at h
    · cases h
    · dsimp only at h
      obtain ⟨-, h₁⟩ := LowerM.guard_ok (mismatchAt_fails _ _ _) h
      cases h₁
      exact .leaf rfl hequiv
  | _, .cast _ _ _, _, _, _, h => by
    unfold lowerConst at h
    obtain ⟨src, q₁, hsrc, h₁⟩ := LowerM.bind_ok h
    obtain ⟨dst, -, h₂⟩ := LowerM.ofExcept_bind_ok h₁
    dsimp only at h₂
    obtain ⟨haccepts, h₃⟩ := LowerM.guard_ok (mismatchAt_fails _ _ _) h₂
    obtain ⟨rfl, -, hequiv⟩ := expressionAt_ok h₃
    obtain ⟨S, hS⟩ := lowerTypedConst_typedAt hsrc
    exact .cast hequiv (by simpa using haccepts) hS
  | _, .binary _ _ (.mk _ _), _, _, _, h => by
    unfold lowerConst at h
    obtain ⟨l, q₁, hl, h₁⟩ := LowerM.bind_ok h
    dsimp only at h₁
    split at h₁
    · -- an integer left operand; the right one is checked at its written type, equivalent to it
      rename_i bits hint
      obtain ⟨rhsTy, -, h₂⟩ := LowerM.ofExcept_bind_ok h₁
      obtain ⟨hrhs, h₃⟩ := LowerM.guard_ok (mismatchAt_fails _ _ _) h₂
      obtain ⟨r, q₂, hr, h₄⟩ := LowerM.bind_ok h₃
      obtain ⟨rfl, -, hequiv⟩ := expressionAt_ok h₄
      obtain ⟨S, hS⟩ := lowerTypedConst_typedAt hl
      have hR := lowerConst_typedAt hr
      have hsame : s.types.equivalent rhsTy l.ty := by simpa using hrhs
      exact .binary hequiv hint (TypeTable.equivalent_trans hR.equivalent hsame) hS hR
    · exact absurd h₁ mismatchAt_bind_ne_ok
  | _, .gep _ _ _ _, _, _, _, h => by
    unfold lowerConst at h
    obtain ⟨elemTy, -, h₁⟩ := LowerM.ofExcept_bind_ok h
    obtain ⟨b, q₁, hb, h₂⟩ := LowerM.bind_ok h₁
    obtain ⟨idx, q₂, hidx, h₃⟩ := LowerM.bind_ok h₂
    obtain ⟨ty, hty, h₄⟩ := LowerM.ofExcept_bind_ok h₃
    obtain ⟨rfl, -, hequiv⟩ := expressionAt_ok h₄
    obtain ⟨S, hS⟩ := lowerTypedConst_typedAt hb
    obtain ⟨Ss, hSs⟩ := lowerTypedConsts_typedAt hidx
    exact .gep hequiv hty hS hSs

/-- A constant written with its type is typed at that type, checked. -/
theorem lowerTypedConst_typedAt :
    ∀ {c : Ast.TypedConst} {q q' : FixupQueue} {k : Const},
      (s.lowerTypedConst c).run.run q = (.ok k, q') → ∃ S, k.TypedAt s.types S
  | .mk _ _, _, _, _, h => by
    unfold lowerTypedConst at h
    obtain ⟨S, -, h₁⟩ := LowerM.ofExcept_bind_ok h
    exact ⟨S, lowerConst_typedAt h₁⟩

theorem lowerTypedConsts_typedAt :
    ∀ {cs : List Ast.TypedConst} {q q' : FixupQueue} {ks : List Const},
      (s.lowerTypedConsts cs).run.run q = (.ok ks, q') →
        ∃ Ss, List.Forall₂ (Const.TypedAt s.types) Ss ks
  | [], _, _, _, h => by
    unfold lowerTypedConsts at h
    cases h
    exact ⟨[], .nil⟩
  | _ :: _, _, _, _, h => by
    unfold lowerTypedConsts at h
    obtain ⟨k, q₁, hk, h₁⟩ := LowerM.bind_ok h
    obtain ⟨ks, q₂, hks, h₂⟩ := LowerM.bind_ok h₁
    cases h₂
    obtain ⟨S, hS⟩ := lowerTypedConst_typedAt hk
    obtain ⟨Ss, hSs⟩ := lowerTypedConsts_typedAt hks
    exact ⟨S :: Ss, .cons hS hSs⟩

/-- The elements of an array or vector: one per written element, each typed at the element
type. -/
theorem lowerElems_typedAt {context : String} {elem : Ty} :
    ∀ {cs : List Ast.TypedConst} {q q' : FixupQueue} {ks : List Const},
      (s.lowerElems context elem cs).run.run q = (.ok ks, q') →
        ks.length = cs.length ∧ ∀ k ∈ ks, k.TypedAt s.types elem
  | [], _, _, _, h => by
    unfold lowerElems at h
    cases h
    exact ⟨rfl, fun _ hk => absurd hk List.not_mem_nil⟩
  | .mk _ _ :: _, _, _, _, h => by
    unfold lowerElems at h
    obtain ⟨written, -, h₁⟩ := LowerM.ofExcept_bind_ok h
    dsimp only at h₁
    obtain ⟨-, h₂⟩ := LowerM.guard_ok (mismatchAt_fails _ _ _) h₁
    obtain ⟨k, q₁, hk, h₃⟩ := LowerM.bind_ok h₂
    obtain ⟨ks, q₂, hks, h₄⟩ := LowerM.bind_ok h₃
    cases h₄
    obtain ⟨hcount, hall⟩ := lowerElems_typedAt hks
    refine ⟨by rw [List.length_cons, List.length_cons, hcount], ?_⟩
    intro k' hk'
    rcases List.mem_cons.mp hk' with rfl | hk'
    · exact lowerConst_typedAt hk
    · exact hall k' hk'

/-- The elements of a struct, when there are as many as fields: each typed at its field. -/
theorem lowerFields_typedAt :
    ∀ {tys : List Ty} {cs : List Ast.TypedConst} {q q' : FixupQueue} {ks : List Const},
      (s.lowerFields tys cs).run.run q = (.ok ks, q') → tys.length = cs.length →
        List.Forall₂ (Const.TypedAt s.types) tys ks
  | _ :: _, .mk _ _ :: _, _, _, _, h, hlen => by
    unfold lowerFields at h
    obtain ⟨written, -, h₁⟩ := LowerM.ofExcept_bind_ok h
    dsimp only at h₁
    obtain ⟨-, h₂⟩ := LowerM.guard_ok (mismatchAt_fails _ _ _) h₁
    obtain ⟨k, q₁, hk, h₃⟩ := LowerM.bind_ok h₂
    obtain ⟨ks, q₂, hks, h₄⟩ := LowerM.bind_ok h₃
    cases h₄
    exact .cons (lowerConst_typedAt hk)
      (lowerFields_typedAt hks (Nat.succ.inj (by simpa using hlen)))
  | [], [], _, _, _, h, _ => by
    unfold lowerFields at h
    cases h
    exact .nil
  | [], _ :: _, _, _, _, _, hlen => absurd hlen (by simp)
  | _ :: _, [], _, _, _, _, hlen => absurd hlen (by simp)

end

/-- **Checked constants are well typed throughout.** A constant checked at an expected type has
a type equivalent to it, and each of its parts is typed at the type of its place
(`Const.TypedAt`). -/
theorem lowerConst_well_typed {expected : Ty} {c : Ast.Const} {q q' : FixupQueue} {k : Const}
    (h : (s.lowerConst expected c).run.run q = (.ok k, q')) :
    s.types.equivalent k.ty expected ∧ k.TypedAt s.types expected :=
  ⟨lowerConst_ty_equivalent h, lowerConst_typedAt h⟩

/-- A struct holding a null pointer and an array of two `i32`, checked at `{ i8*, [2 x i32] }`. -/
theorem nestedAggregate_well_typed :
    ∃ k q', (({} : Scope).lowerConst (.struct false [.ptr .i8, .array 2 (.int 32)])
        (.struct false [.mk (.ptr .i8) .null,
          .mk (.array 2 (.int 32)) (.array [.mk (.int 32) .zeroInit, .mk (.int 32) .undef])])).run.run
        {} = (.ok k, q') ∧
      ({} : Scope).types.equivalent k.ty (.struct false [.ptr .i8, .array 2 (.int 32)]) ∧
      k.TypedAt ({} : Scope).types (.struct false [.ptr .i8, .array 2 (.int 32)]) := by
  obtain ⟨k, q', h⟩ : ∃ k q', (({} : Scope).lowerConst (.struct false [.ptr .i8, .array 2 (.int 32)])
      (.struct false [.mk (.ptr .i8) .null,
        .mk (.array 2 (.int 32)) (.array [.mk (.int 32) .zeroInit, .mk (.int 32) .undef])])).run.run
      {} = (.ok k, q') := ⟨_, _, rfl⟩
  exact ⟨k, q', h, lowerConst_well_typed h⟩

end Scope

end LlvmAsm
