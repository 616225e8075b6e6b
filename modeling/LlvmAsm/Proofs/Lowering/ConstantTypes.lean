import LlvmAsm.Proofs.Lowering.Run

/-!
# `Proofs.Lowering.ConstantTypes` — a checked constant has its expected type

Two ways of looking through names meet here. `TypeTable.underlying` follows every name;
`TypeTable.resolveAlias` stops at a name whose body is a struct, and equivalence compares what it
reaches. When following every name ends at a type that is neither a name nor a struct, following
the aliases ends there too (`resolveAliasWith_of_underlyingWith`), and conversely when following
the aliases ends at a type that is not a name (`underlyingWith_of_resolveAliasWith`).

Main statement: `lowerConst_ty_equivalent` — every constant `lowerConst` returns at an expected
type has a type equivalent to it; the scalar forms return the type under the names, the others the
expected type itself or a type checked equivalent to it.
-/

namespace LlvmAsm

namespace TypeTable

variable (t : TypeTable)

theorem equivalent_refl (a : Ty) : t.equivalent a a := by
  simp [equivalent]

variable {t}

theorem equivalent_symm {a b : Ty} (h : t.equivalent a b) : t.equivalent b a := by
  simp only [equivalent, beq_iff_eq] at h ⊢
  exact h.symm

theorem equivalent_trans {a b c : Ty} (h₁ : t.equivalent a b) (h₂ : t.equivalent b c) :
    t.equivalent a c := by
  simp only [equivalent, beq_iff_eq] at h₁ h₂ ⊢
  exact h₁.trans h₂

/-- A type that is not a name is its own alias resolution and its own underlying type. -/
theorem resolveAliasWith_of_not_named {a : Ty} (ha : ∀ name, a ≠ .named name) :
    ∀ n, t.resolveAliasWith n a = a
  | 0 => rfl
  | _ + 1 => by
    cases a with
    | named name => exact absurd rfl (ha name)
    | _ => rfl

theorem underlyingWith_of_not_named {a : Ty} (ha : ∀ name, a ≠ .named name) :
    ∀ n, t.underlyingWith n a = a
  | 0 => rfl
  | _ + 1 => by
    cases a with
    | named name => exact absurd rfl (ha name)
    | _ => rfl

/-- **Aliases reach what all names reach**, when that is neither a name nor a struct. -/
theorem resolveAliasWith_of_underlyingWith {b : Ty} (hb : ∀ name, b ≠ .named name)
    (hs : ∀ p fs, b ≠ .struct p fs) : ∀ (n : Nat) (a : Ty), t.underlyingWith n a = b →
      t.resolveAliasWith n a = b
  | 0, a, h => h
  | n + 1, a, h => by
    cases a with
    | named name =>
      simp only [underlyingWith] at h
      simp only [resolveAliasWith]
      split at h
      · rename_i body hbody
        rw [hbody]
        -- a struct body would be reached by both, and `b` is no struct
        cases body with
        | struct p fs =>
          rw [underlyingWith_of_not_named (fun name (h : Ty.struct p fs = .named name) => nomatch h)] at h
          exact absurd h.symm (hs p fs)
        | _ => exact resolveAliasWith_of_underlyingWith hb hs n _ h
      · exact absurd h.symm (hb name)
    | _ => exact h

/-- **All names reach what the aliases reach**, when that is not a name. -/
theorem underlyingWith_of_resolveAliasWith {b : Ty} (hb : ∀ name, b ≠ .named name) :
    ∀ (n : Nat) (a : Ty), t.resolveAliasWith n a = b → t.underlyingWith n a = b
  | 0, a, h => h
  | n + 1, a, h => by
    cases a with
    | named name =>
      simp only [resolveAliasWith] at h
      simp only [underlyingWith]
      split at h
      · exact absurd h.symm (hb name)
      · rename_i body _ hbody
        rw [hbody]
        exact underlyingWith_of_resolveAliasWith hb n _ h
      · exact absurd h.symm (hb name)
    | _ => exact h

/-- A type is equivalent to the type under its names, when that is neither a name nor a
    struct. -/
theorem equivalent_of_underlying {a b : Ty} (h : t.underlying a = b)
    (hb : ∀ name, b ≠ .named name) (hs : ∀ p fs, b ≠ .struct p fs) : t.equivalent b a := by
  simp only [equivalent, beq_iff_eq, resolveAlias]
  rw [resolveAliasWith_of_not_named hb, resolveAliasWith_of_underlyingWith hb hs _ _ h]

/-- A type equivalent to one that is not a name has that type under its names. -/
theorem underlying_of_equivalent {a b : Ty} (h : t.equivalent a b) (hb : ∀ name, b ≠ .named name) :
    t.underlying a = t.resolveAlias b := by
  simp only [equivalent, beq_iff_eq] at h
  have hnot : ∀ name, t.resolveAlias b ≠ .named name := by
    rw [resolveAlias, resolveAliasWith_of_not_named hb]
    exact hb
  exact underlyingWith_of_resolveAliasWith hnot _ _ h

end TypeTable

/-- The width a literal is read at is the width of the constant. -/
theorem IntConst.parse_bits {bits : Nat} {text : String} {i : IntConst}
    (h : IntConst.parse bits text = .ok i) : i.bits = bits := by
  unfold IntConst.parse at h
  simp only [bind, Except.bind, pure, Except.pure, throw, throwThe, MonadExceptOf.throw] at h
  -- every branch either fails or builds the constant at width `bits`
  repeat' split at h
  all_goals cases h
  all_goals rfl

theorem FloatConst.ofDouble_kind {kind : FloatKind} {bits : Nat} {f : FloatConst}
    (h : FloatConst.ofDouble kind bits = some f) : f.kind = kind := by
  cases kind with
  | double => simp only [FloatConst.ofDouble, Option.some.injEq] at h; rw [← h]
  | float =>
    simp only [FloatConst.ofDouble] at h
    split at h
    · cases h; rfl
    · cases h
  | half => cases h

/-- The kind a literal is read at is the kind of the constant. -/
theorem FloatConst.parse_kind {kind : FloatKind} {text : String} {f : FloatConst}
    (h : FloatConst.parse kind text = .ok f) : f.kind = kind := by
  unfold FloatConst.parse at h
  simp only [bind, Except.bind, pure, Except.pure, throw, throwThe, MonadExceptOf.throw] at h
  -- a `0xH` literal is accepted at kind half only; every other one goes through `ofDouble`
  repeat' split at h
  all_goals cases h
  all_goals first
    | exact FloatConst.ofDouble_kind ‹_›
    | exact (Decidable.of_not_not ‹¬kind ≠ .half›).symm

namespace Scope

variable {s : Scope} {q q' : FixupQueue} {k : Const}

theorem expressionAt_ok {expected : Ty} {e : Const} (h : (s.expressionAt expected e).run.run q = (.ok k, q')) :
    k = e ∧ q' = q ∧ s.types.equivalent e.ty expected := by
  unfold expressionAt at h
  split at h
  · cases h; exact ⟨rfl, rfl, by assumption⟩
  · cases h

/-- **A checked constant has its expected type**, up to non-struct aliases. -/
theorem lowerConst_ty_equivalent {expected : Ty} {c : Ast.Const}
    (h : (s.lowerConst expected c).run.run q = (.ok k, q')) : s.types.equivalent k.ty expected := by
  -- the scalar forms take the type under the expected type's names
  have under : ∀ b, s.types.underlying expected = b → (∀ name, b ≠ .named name) →
      (∀ p fs, b ≠ .struct p fs) → k.ty = b → s.types.equivalent k.ty expected := by
    intro b hu hb hs hk
    rw [hk]
    exact TypeTable.equivalent_of_underlying hu hb hs
  cases c with
  | bool b =>
    unfold lowerConst at h
    split at h
    · cases h
      exact under (.int 1) (by assumption) (fun _ h => nomatch h) (fun _ _ h => nomatch h) rfl
    · cases h
  | int text =>
    unfold lowerConst at h
    split at h
    · rename_i bits hu
      obtain ⟨i, q₁, hi, hk⟩ := LowerM.bind_ok h
      obtain ⟨hp, rfl⟩ := LowerM.ofExcept_ok hi
      cases hk
      exact under (.int bits) hu (fun _ h => nomatch h) (fun _ _ h => nomatch h)
        (by simp [Const.ty, IntConst.parse_bits hp])
    · cases h
  | float text =>
    unfold lowerConst at h
    split at h
    · rename_i kind hu
      obtain ⟨f, q₁, hf, hk⟩ := LowerM.bind_ok h
      obtain ⟨hp, rfl⟩ := LowerM.ofExcept_ok hf
      cases hk
      exact under (.float kind) hu (fun _ h => nomatch h) (fun _ _ h => nomatch h)
        (by simp [Const.ty, FloatConst.parse_kind hp])
    · cases h
  | null =>
    unfold lowerConst at h
    split at h
    · cases h; exact TypeTable.equivalent_refl _ _
    · cases h
  | none =>
    unfold lowerConst at h
    split at h
    · cases h
      exact under .token (by assumption) (fun _ h => nomatch h) (fun _ _ h => nomatch h) rfl
    · cases h
  | struct packed fields =>
    unfold lowerConst at h
    split at h
    · split at h
      · obtain ⟨elems, q₁, _, hk⟩ := LowerM.bind_ok h
        cases hk; exact TypeTable.equivalent_refl _ _
      · cases h
    · cases h
  | array elems =>
    unfold lowerConst at h
    split at h
    · split at h
      · cases h
      · obtain ⟨cs, q₁, _, hk⟩ := LowerM.bind_ok h
        cases hk; exact TypeTable.equivalent_refl _ _
    · cases h
  | vector elems =>
    unfold lowerConst at h
    split at h
    · split at h
      · cases h
      · obtain ⟨cs, q₁, _, hk⟩ := LowerM.bind_ok h
        cases hk; exact TypeTable.equivalent_refl _ _
    · cases h
  | chars raw =>
    unfold lowerConst at h
    split at h
    · cases h
    · dsimp only at h
      split at h
      · cases h
      · rename_i hu
        cases h
        exact under _ (Decidable.of_not_not hu) (fun _ h => nomatch h) (fun _ _ h => nomatch h) rfl
  | zeroInit => cases h; exact TypeTable.equivalent_refl _ _
  | undef => cases h; exact TypeTable.equivalent_refl _ _
  | blockAddress func block =>
    unfold lowerConst at h
    dsimp only at h
    split at h
    · split at h
      · simp [mismatchAt] at h
        cases h
      · rename_i hequiv
        obtain ⟨_, q₁, _, h⟩ := LowerM.bind_ok h
        cases h
        show s.types.equivalent (.ptr .i8) expected
        exact TypeTable.equivalent_symm (by simpa using hequiv)
    · simp at h
      cases h
  | global name =>
    unfold lowerConst at h
    split at h
    · cases h
    · dsimp only at h
      obtain ⟨_, h⟩ := LowerM.guard_ok (mismatchAt_fails _ _ _) h
      cases h; exact TypeTable.equivalent_refl _ _
  | cast op value target =>
    unfold lowerConst at h
    obtain ⟨_, q₁, _, h⟩ := LowerM.bind_ok h
    obtain ⟨_, q₂, _, h⟩ := LowerM.bind_ok h
    dsimp only at h
    obtain ⟨_, h⟩ := LowerM.guard_ok (mismatchAt_fails _ _ _) h
    obtain ⟨rfl, -, hequiv⟩ := expressionAt_ok h
    exact hequiv
  | binary op lhs rhs =>
    cases rhs with
    | mk rhsWritten rhsValue =>
      unfold lowerConst at h
      obtain ⟨_, q₁, _, h⟩ := LowerM.bind_ok h
      dsimp only at h
      split at h
      · obtain ⟨_, q₂, _, h⟩ := LowerM.bind_ok h
        obtain ⟨_, h⟩ := LowerM.guard_ok (mismatchAt_fails _ _ _) h
        obtain ⟨_, q₃, _, h⟩ := LowerM.bind_ok h
        obtain ⟨rfl, -, hequiv⟩ := expressionAt_ok h
        exact hequiv
      · -- the left operand is not an integer
        obtain ⟨_, _, hfail, _⟩ := LowerM.bind_ok h
        rw [run_mismatchAt] at hfail
        cases hfail
  | gep inBounds elem base indices =>
    unfold lowerConst at h
    obtain ⟨_, q₁, _, h⟩ := LowerM.bind_ok h
    obtain ⟨_, q₂, _, h⟩ := LowerM.bind_ok h
    obtain ⟨_, q₃, _, h⟩ := LowerM.bind_ok h
    obtain ⟨_, q₄, _, h⟩ := LowerM.bind_ok h
    obtain ⟨rfl, -, hequiv⟩ := expressionAt_ok h
    exact hequiv

end Scope

end LlvmAsm
