import LlvmAsm.Ir.Constant

/-!
# `Proofs.ElementAddresses` — the type a `getelementptr` yields

`gepResultType table elem base indices` is the type of the address a `getelementptr` computes. The
base must be a pointer (looking through names) to exactly `elem`, and the first index must have
an integer type. Each further index steps into the type reached so far: a struct (looking through
names) takes an integer constant naming one of its fields, an array or a vector steps to its
element type, whatever the index, and any other type ends the walk with a failure. The result
points, in the base's address space, to the type the indices reach.

`GepSteps` states that walk on its own, and `gepWalk_eq_ok_iff` shows the walk computes it. The
main statement, `gepResultType_spec`, gives the whole computation: what holds when it succeeds,
that it succeeds when its checks pass, and that every failure is a type mismatch. Array and vector
steps never look at their index, so a later index of a non-integer type is accepted
(`floatIndex_steps_into_array`).
-/

namespace LlvmAsm

/-- The walk of `getelementptr` indices from a type to the type they reach: a struct step takes an
integer constant naming a field, an array or vector step goes to the element type. Named types
are looked through. -/
inductive GepSteps (table : TypeTable) : Ty → List Const → Ty → Prop
  | nil {cur : Ty} : GepSteps table cur [] cur
  | field {cur : Ty} {packed : Bool} {fields : List Ty} {i : IntConst} {f : Ty}
      {rest : List Const} {r : Ty} (hs : table.underlying cur = .struct packed fields)
      (hi : 0 ≤ i.value) (hf : fields[i.value.toNat]? = some f) :
      GepSteps table f rest r → GepSteps table cur (.int i :: rest) r
  | array {cur : Ty} {len : Nat} {elem : Ty} {index : Const} {rest : List Const} {r : Ty}
      (ha : table.underlying cur = .array len elem) :
      GepSteps table elem rest r → GepSteps table cur (index :: rest) r
  | vector {cur : Ty} {len : Nat} {elem : Ty} {index : Const} {rest : List Const} {r : Ty}
      (hv : table.underlying cur = .vector len elem) :
      GepSteps table elem rest r → GepSteps table cur (index :: rest) r

section Walk

variable {table : TypeTable}

/-- A failure with a mismatch is a type mismatch. -/
theorem typeMismatch_of_error {context expected found : String} {e : IrError}
    (h : (Except.error (IrError.mismatch context expected found) : Except IrError Ty) = .error e) :
    ∃ context expected found, e = .typeMismatch context expected found := by
  cases h
  exact ⟨_, _, _, rfl⟩

/-- A type that is no name is its own underlying type. -/
theorem TypeTable.underlying_int (table : TypeTable) (w : Nat) :
    table.underlying (.int w) = .int w := rfl

theorem gepWalk_of_steps {cur r : Ty} {indices : List Const} (h : GepSteps table cur indices r) :
    gepWalk table cur indices = .ok r := by
  induction h with
  | nil => rfl
  | field hs hi hf _ ih =>
    rw [gepWalk, hs]
    simp only [hi, if_true, hf, ih]
  | array ha _ ih =>
    rw [gepWalk, ha]
    exact ih
  | vector hv _ ih =>
    rw [gepWalk, hv]
    exact ih

theorem steps_of_gepWalk {cur r : Ty} {indices : List Const}
    (h : gepWalk table cur indices = .ok r) : GepSteps table cur indices r := by
  induction indices generalizing cur with
  | nil =>
    cases h
    exact .nil
  | cons index rest ih =>
    rw [gepWalk] at h
    -- the step is decided by the type under `cur`
    split at h
    · next packed fields hs =>
      cases index with
      | int i =>
        by_cases hi : 0 ≤ i.value
        · cases hf : fields[i.value.toNat]? with
          | none => simp [hi, hf] at h
          | some f =>
            simp only [hi, if_true, hf] at h
            exact .field hs hi hf (ih h)
        · simp [hi] at h
      | _ => cases h
    · next len elem ha => exact .array ha (ih h)
    · next len elem hv => exact .vector hv (ih h)
    · cases h

/-- **The index walk computes `GepSteps`.** -/
theorem gepWalk_eq_ok_iff {cur r : Ty} {indices : List Const} :
    gepWalk table cur indices = .ok r ↔ GepSteps table cur indices r :=
  ⟨steps_of_gepWalk, gepWalk_of_steps⟩

/-- Every failure of the index walk is a type mismatch. -/
theorem gepWalk_error {cur : Ty} {indices : List Const} {e : IrError}
    (h : gepWalk table cur indices = .error e) :
    ∃ context expected found, e = .typeMismatch context expected found := by
  induction indices generalizing cur with
  | nil => cases h
  | cons index rest ih =>
    rw [gepWalk] at h
    split at h
    · -- a struct step fails on an index naming no field, or fails further on
      next packed fields hs =>
      cases index with
      | int i =>
        by_cases hi : 0 ≤ i.value
        · cases hf : fields[i.value.toNat]? with
          | none =>
            simp only [hi, if_true, hf] at h
            exact typeMismatch_of_error h
          | some f =>
            simp only [hi, if_true, hf] at h
            exact ih h
        · simp only [hi, if_false] at h
          exact typeMismatch_of_error h
      | _ => exact typeMismatch_of_error h
    · exact ih h
    · exact ih h
    · exact typeMismatch_of_error h

end Walk

/-! ## The checks of `gepResultType`, one case each -/

section Checks

variable {table : TypeTable} {elem baseTy : Ty}

theorem gepResultType_of_not_pointer (h : ∀ p s, table.underlying baseTy ≠ .pointer p s)
    (indices : List Const) :
    gepResultType table elem baseTy indices =
      .error (.mismatch "getelementptr base" "pointer type" (table.underlying baseTy).render) := by
  unfold gepResultType
  split
  · next p s hb => exact absurd hb (h p s)
  · rfl

theorem gepResultType_of_ne {pointee : Ty} {space : Nat}
    (hb : table.underlying baseTy = .pointer pointee space) (hp : pointee ≠ elem)
    (indices : List Const) :
    gepResultType table elem baseTy indices =
      .error (.mismatch "getelementptr base" (Ty.ptr elem).render baseTy.render) := by
  unfold gepResultType
  rw [hb]
  simp only [ne_eq, hp, not_false_eq_true, if_true]
  rfl

theorem gepResultType_nil {space : Nat} (hb : table.underlying baseTy = .pointer elem space) :
    gepResultType table elem baseTy [] = .ok (.pointer elem space) := by
  unfold gepResultType
  rw [hb]
  simp only [ne_eq, not_true_eq_false, if_false]
  rfl

theorem gepResultType_cons_int {space w : Nat} {first : Const} {rest : List Const}
    (hb : table.underlying baseTy = .pointer elem space) (hw : first.ty = .int w) :
    gepResultType table elem baseTy (first :: rest) =
      (gepWalk table elem rest).map (.pointer · space) := by
  unfold gepResultType
  rw [hb]
  simp only [ne_eq, not_true_eq_false, if_false, hw]
  cases gepWalk table elem rest <;> rfl

theorem gepResultType_cons_not_int {space : Nat} {first : Const} {rest : List Const}
    (hb : table.underlying baseTy = .pointer elem space) (hw : ∀ w, first.ty ≠ .int w) :
    gepResultType table elem baseTy (first :: rest) =
      .error (.mismatch "getelementptr index" "integer type" first.ty.render) := by
  unfold gepResultType
  rw [hb]
  simp only [ne_eq, not_true_eq_false, if_false]
  rfl

/-- A successful `getelementptr` type passed each check: the base points to `elem`, and the first
index, if any, is typed `iN` and the walk over the others succeeds. -/
theorem gepResultType_eq_ok {indices : List Const} {r : Ty}
    (h : gepResultType table elem baseTy indices = .ok r) :
    ∃ space, table.underlying baseTy = .pointer elem space ∧
      ((indices = [] ∧ r = .pointer elem space) ∨
        ∃ first rest w reached, indices = first :: rest ∧ first.ty = .int w ∧
          gepWalk table elem rest = .ok reached ∧ r = .pointer reached space) := by
  by_cases hp : ∃ p s, table.underlying baseTy = .pointer p s
  · obtain ⟨pointee, space, hb⟩ := hp
    by_cases he : pointee = elem
    · subst he
      refine ⟨space, hb, ?_⟩
      cases indices with
      | nil =>
        rw [gepResultType_nil hb] at h
        cases h
        exact .inl ⟨rfl, rfl⟩
      | cons first rest =>
        by_cases hw : ∃ w, first.ty = .int w
        · obtain ⟨w, hw⟩ := hw
          rw [gepResultType_cons_int hb hw] at h
          cases hwalk : gepWalk table pointee rest with
          | error e => rw [hwalk] at h; cases h
          | ok reached =>
            rw [hwalk] at h
            cases h
            exact .inr ⟨first, rest, w, reached, rfl, hw, hwalk, rfl⟩
        · rw [gepResultType_cons_not_int hb fun w hw' => hw ⟨w, hw'⟩] at h
          cases h
    · rw [gepResultType_of_ne hb he] at h
      cases h
  · rw [gepResultType_of_not_pointer fun p s hb => hp ⟨p, s, hb⟩] at h
    cases h

/-- Every failure of `gepResultType` is a type mismatch. -/
theorem gepResultType_error {indices : List Const} {e : IrError}
    (h : gepResultType table elem baseTy indices = .error e) :
    ∃ context expected found, e = .typeMismatch context expected found := by
  by_cases hp : ∃ p s, table.underlying baseTy = .pointer p s
  · obtain ⟨pointee, space, hb⟩ := hp
    by_cases he : pointee = elem
    · subst he
      cases indices with
      | nil => rw [gepResultType_nil hb] at h; cases h
      | cons first rest =>
        by_cases hw : ∃ w, first.ty = .int w
        · obtain ⟨w, hw⟩ := hw
          rw [gepResultType_cons_int hb hw] at h
          cases hwalk : gepWalk table pointee rest with
          | error e' =>
            rw [hwalk] at h
            cases h
            exact gepWalk_error hwalk
          | ok reached => rw [hwalk] at h; cases h
        · rw [gepResultType_cons_not_int hb fun w hw' => hw ⟨w, hw'⟩] at h
          exact typeMismatch_of_error h
    · rw [gepResultType_of_ne hb he] at h
      exact typeMismatch_of_error h
  · rw [gepResultType_of_not_pointer fun p s hb => hp ⟨p, s, hb⟩] at h
    exact typeMismatch_of_error h

end Checks

/-- **The type a `getelementptr` yields.** When it succeeds, the base is a pointer (looking
through names) to exactly `elem`, the first index has an integer type, and the result points, in
the base's address space, to what the other indices reach from `elem`. When the base is such a
pointer, the first index is typed `iN` and the other indices walk, it succeeds with that result.
Every failure is a type mismatch. -/
theorem gepResultType_spec (table : TypeTable) (elem baseTy : Ty) (indices : List Const) :
    (∀ r, gepResultType table elem baseTy indices = .ok r →
      ∃ space reached, table.underlying baseTy = .pointer elem space ∧
        (∀ first ∈ indices.head?, ∃ w, table.underlying first.ty = .int w) ∧
        GepSteps table elem indices.tail reached ∧ r = .pointer reached space) ∧
    (∀ space reached, table.underlying baseTy = .pointer elem space →
      (∀ first ∈ indices.head?, ∃ w, first.ty = .int w) →
      GepSteps table elem indices.tail reached →
      gepResultType table elem baseTy indices = .ok (.pointer reached space)) ∧
    (∀ e, gepResultType table elem baseTy indices = .error e →
      ∃ context expected found, e = .typeMismatch context expected found) := by
  refine ⟨fun r h => ?_, fun space reached hb hfirst hsteps => ?_, fun e h => gepResultType_error h⟩
  · obtain ⟨space, hb, ⟨rfl, rfl⟩ | ⟨first, rest, w, reached, rfl, hw, hwalk, rfl⟩⟩ :=
      gepResultType_eq_ok h
    · refine ⟨space, elem, hb, ?_, .nil, rfl⟩
      intro f hf
      cases hf
    · refine ⟨space, reached, hb, fun f hf => ?_, steps_of_gepWalk hwalk, rfl⟩
      cases hf
      exact ⟨w, by rw [hw, TypeTable.underlying_int]⟩
  · cases indices with
    | nil =>
      cases hsteps
      exact gepResultType_nil hb
    | cons first rest =>
      obtain ⟨w, hw⟩ := hfirst first rfl
      have hwalk : gepWalk table elem rest = .ok reached := gepWalk_of_steps hsteps
      rw [gepResultType_cons_int hb hw, hwalk]
      rfl

/-- The struct `{ i32, [4 x i8] }` indexed through a pointer with `i64 0, i32 1, i64 2`: the second
index picks the array field and the third steps to its bytes, so the address is an `i8*`. -/
theorem structThenArray_element_type :
    gepResultType {} (.struct false [.int 32, .array 4 .i8])
        (.ptr (.struct false [.int 32, .array 4 .i8]))
        [.int ⟨64, 0⟩, .int ⟨32, 1⟩, .int ⟨64, 2⟩] = .ok (.ptr .i8) :=
  (gepResultType_spec _ _ _ _).2.1 0 .i8 rfl (fun f hf => by cases hf; exact ⟨64, rfl⟩)
    (.field rfl (by decide) rfl (.array rfl .nil))

/-- Only the first index's type is checked: a `double` index after it steps into an array as any
index does, so `getelementptr ([2 x i8], [2 x i8]* null, i64 0, double 1.0)` is an `i8*`, though
that index has no integer type, under any names. -/
theorem floatIndex_steps_into_array :
    gepResultType {} (.array 2 .i8) (.ptr (.array 2 .i8))
        [.int ⟨64, 0⟩, .float ⟨.double, 0x3FF0000000000000⟩] = .ok (.ptr .i8) ∧
      ∀ w, ({} : TypeTable).underlying (Const.float ⟨.double, 0x3FF0000000000000⟩).ty ≠ .int w :=
  ⟨rfl, fun _ h => by cases h⟩

end LlvmAsm
