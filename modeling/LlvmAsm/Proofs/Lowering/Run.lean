import Mathlib.Data.List.Forall2
import LlvmAsm.Lowering.Module

/-!
# `Proofs.Lowering.Run` — running a lowering step

Lowering runs in `LowerM`: it fails with an `IrError` or succeeds, and in both cases leaves the
queue of block addresses as its steps left it. This module gives the equations of running each
monadic form from a queue (`x.run.run q`), and the inversion lemmas that peel a successful run
apart (`LowerM.bind_ok`), so later proofs never unfold the monad. The same inversion is stated for
plain `Except`, in which the first pass over a body runs.
-/

namespace LlvmAsm

/-- A fact relating the partners of a `Forall₂` gives every member of the left list a partner. -/
theorem forall₂_exists_right {α β : Type} {R : α → β → Prop} :
    ∀ {xs : List α} {ys : List β}, List.Forall₂ R xs ys → ∀ x ∈ xs, ∃ y ∈ ys, R x y
  | _, _, .nil => fun _ hx => nomatch hx
  | _, _, .cons hxy hrest => by
    intro x hx
    rcases List.mem_cons.mp hx with rfl | hx
    · exact ⟨_, List.mem_cons_self, hxy⟩
    · obtain ⟨y, hy, hr⟩ := forall₂_exists_right hrest x hx
      exact ⟨y, List.mem_cons_of_mem _ hy, hr⟩

/-- Every member of the right list of a `Forall₂` has a partner. -/
theorem forall₂_exists_left {α β : Type} {R : α → β → Prop} {xs : List α} {ys : List β}
    (h : List.Forall₂ R xs ys) : ∀ y ∈ ys, ∃ x ∈ xs, R x y :=
  forall₂_exists_right (List.Forall₂.flip (R := flip R) h)

/-- Two `Forall₂` in a row pair the first list with the last. -/
theorem forall₂_comp {α β γ : Type} {R : α → β → Prop} {S : β → γ → Prop} {T : α → γ → Prop}
    (hT : ∀ {a b c}, R a b → S b c → T a c) :
    ∀ {xs : List α} {ys : List β} {zs : List γ}, List.Forall₂ R xs ys → List.Forall₂ S ys zs →
      List.Forall₂ T xs zs
  | _, _, _, .nil, .nil => .nil
  | _, _, _, .cons hr hrs, .cons hs hss => .cons (hT hr hs) (forall₂_comp @hT hrs hss)

/-- Lists paired by a relation that equates two images have equal images. -/
theorem map_eq_of_forall₂ {α β γ : Type} {f : α → γ} {g : β → γ} :
    ∀ {xs : List α} {ys : List β}, List.Forall₂ (fun x y => f x = g y) xs ys → xs.map f = ys.map g
  | _, _, .nil => rfl
  | _, _, .cons h hs => by rw [List.map_cons, List.map_cons, h, map_eq_of_forall₂ hs]

namespace LowerM

variable {α β : Type}

@[simp] theorem run_pure (a : α) (q : FixupQueue) : (pure a : LowerM α).run.run q = (.ok a, q) :=
  rfl

@[simp] theorem run_throw (e : IrError) (q : FixupQueue) :
    (throw e : LowerM α).run.run q = (.error e, q) := rfl

@[simp] theorem run_modify (f : FixupQueue → FixupQueue) (q : FixupQueue) :
    (modify f : LowerM Unit).run.run q = (.ok (), f q) := rfl

@[simp] theorem run_ofExcept (x : Except IrError α) (q : FixupQueue) :
    (LowerM.ofExcept x).run.run q = (x, q) := by
  cases x <;> rfl

theorem run_bind (x : LowerM α) (f : α → LowerM β) (q : FixupQueue) :
    (x >>= f).run.run q = match x.run.run q with
      | (.ok a, q') => (f a).run.run q'
      | (.error e, q') => (.error e, q') := by
  show (ExceptT.bind x f).run.run q = _
  simp only [ExceptT.bind, ExceptT.run, ExceptT.mk, bind, StateT.bind, StateT.run]
  rcases x q with ⟨r, q'⟩
  cases r <;> rfl

/-- **A successful sequence** ran its first step successfully, and its second from there. -/
theorem bind_ok {x : LowerM α} {f : α → LowerM β} {q q' : FixupQueue} {b : β}
    (h : (x >>= f).run.run q = (.ok b, q')) :
    ∃ a q₁, x.run.run q = (.ok a, q₁) ∧ (f a).run.run q₁ = (.ok b, q') := by
  rw [run_bind] at h
  rcases hx : x.run.run q with ⟨r, q₁⟩
  rw [hx] at h
  cases r with
  | error e => cases h
  | ok a => exact ⟨a, q₁, rfl, h⟩

theorem ofExcept_ok {x : Except IrError α} {q q' : FixupQueue} {a : α}
    (h : (LowerM.ofExcept x).run.run q = (.ok a, q')) : x = .ok a ∧ q' = q := by
  rw [run_ofExcept] at h
  cases h
  exact ⟨rfl, rfl⟩

/-- **A passed check.** A run that succeeds past `if c then fail else rest`, where `fail` always
    fails, found `c` false and ran `rest`. -/
theorem guard_ok {c : Bool} {x : LowerM Unit} {y : LowerM α} {q q' : FixupQueue} {b : α}
    (hx : ∀ q, ∃ e, x.run.run q = (.error e, q))
    (h : (if c = true then x >>= (fun _ => y) else y).run.run q = (.ok b, q')) :
    c = false ∧ y.run.run q = (.ok b, q') := by
  cases c with
  | false => exact ⟨rfl, h⟩
  | true =>
    obtain ⟨e, he⟩ := hx q
    rw [if_pos rfl, run_bind, he] at h
    cases h

/-- A successful sequence that starts with a plain check ran the check successfully, and the
    rest from the same queue. -/
theorem ofExcept_bind_ok {x : Except IrError α} {f : α → LowerM β} {q q' : FixupQueue} {b : β}
    (h : (LowerM.ofExcept x >>= f).run.run q = (.ok b, q')) :
    ∃ a, x = .ok a ∧ (f a).run.run q = (.ok b, q') := by
  obtain ⟨a, q₁, hx, hf⟩ := bind_ok h
  obtain ⟨hx, hq⟩ := ofExcept_ok hx
  rw [hq] at hf
  exact ⟨a, hx, hf⟩

theorem run_tryCatch (x : LowerM α) (handle : IrError → LowerM α) (q : FixupQueue) :
    (tryCatch x handle).run.run q = match x.run.run q with
      | (.ok a, q') => (.ok a, q')
      | (.error e, q') => (handle e).run.run q' := by
  show (ExceptT.tryCatch x handle).run.run q = _
  simp only [ExceptT.tryCatch, ExceptT.run, ExceptT.mk, bind, StateT.bind, StateT.run]
  rcases x q with ⟨r, q'⟩
  cases r <;> rfl

theorem mapM_cons_ok {γ : Type} {f : γ → LowerM α} {c : γ} {cs : List γ} {q q' : FixupQueue}
    {bs : List α} (h : ((c :: cs).mapM f).run.run q = (.ok bs, q')) :
    ∃ b bs' q₁, (f c).run.run q = (.ok b, q₁) ∧ (cs.mapM f).run.run q₁ = (.ok bs', q') ∧
      bs = b :: bs' := by
  rw [List.mapM_cons] at h
  obtain ⟨b, q₁, hb, h⟩ := bind_ok h
  obtain ⟨bs', q₂, hbs, h⟩ := bind_ok h
  cases h
  exact ⟨b, bs', q₁, hb, hbs, rfl⟩

/-- **Each element of a successful traversal** was mapped successfully, from some queue. -/
theorem mapM_forall₂ {γ : Type} {f : γ → LowerM α} :
    ∀ {xs : List γ} {q q' : FixupQueue} {ys : List α}, (xs.mapM f).run.run q = (.ok ys, q') →
      List.Forall₂ (fun x y => ∃ q₁ q₂, (f x).run.run q₁ = (.ok y, q₂)) xs ys
  | [], q, q', ys, h => by
    rw [List.mapM_nil, run_pure] at h
    cases h
    exact .nil
  | x :: xs, q, q', ys, h => by
    obtain ⟨y, ys', q₁, hy, hys, rfl⟩ := mapM_cons_ok h
    exact .cons ⟨q, q₁, hy⟩ (mapM_forall₂ hys)

/-- **A property of every result** of a traversal, from the property of each step. -/
theorem mapM_forall {γ : Type} {f : γ → LowerM α} {P : α → Prop} :
    ∀ {xs : List γ} {q q' : FixupQueue} {ys : List α},
      (∀ x ∈ xs, ∀ q₁ q₂ y, (f x).run.run q₁ = (.ok y, q₂) → P y) →
      (xs.mapM f).run.run q = (.ok ys, q') → ∀ y ∈ ys, P y
  | [], q, q', ys, _, h => by
    rw [List.mapM_nil, run_pure] at h
    cases h
    intro y hy
    cases hy
  | x :: xs, q, q', ys, hf, h => by
    obtain ⟨y, ys', q₁, hy, hys, rfl⟩ := mapM_cons_ok h
    intro z hz
    rcases List.mem_cons.mp hz with rfl | hz
    · exact hf x List.mem_cons_self _ _ _ hy
    · exact mapM_forall (fun x' hx' => hf x' (List.mem_cons_of_mem _ hx')) hys z hz

end LowerM

namespace Scope

@[simp] theorem run_mismatchAt {α : Type} (context expected found : String) (q : FixupQueue) :
    (mismatchAt context expected found : LowerM α).run.run q =
      (.error (.mismatch context expected found), q) := rfl

theorem mismatchAt_fails (context expected found : String) (q : FixupQueue) :
    ∃ e, (mismatchAt context expected found : LowerM Unit).run.run q = (.error e, q) :=
  ⟨_, run_mismatchAt context expected found q⟩

/-- Nothing runs successfully past a refused check. -/
theorem mismatchAt_bind_ne_ok {α : Type} {context expected found : String} {g : Unit → LowerM α}
    {q q' : FixupQueue} {b : α} :
    (mismatchAt context expected found >>= g).run.run q ≠ (.ok b, q') := by
  intro h
  obtain ⟨_, _, hfail, _⟩ := LowerM.bind_ok h
  rw [run_mismatchAt] at hfail
  cases hfail

end Scope

namespace Except

variable {ε α β : Type}

/-- **A successful sequence** in `Except` ran both of its steps successfully. -/
theorem bind_eq_ok_iff {x : Except ε α} {f : α → Except ε β} {b : β} :
    x >>= f = .ok b ↔ ∃ a, x = .ok a ∧ f a = .ok b := by
  cases x <;> simp [bind, Except.bind]

theorem map_eq_ok_iff {x : Except ε α} {f : α → β} {b : β} :
    f <$> x = .ok b ↔ ∃ a, x = .ok a ∧ f a = b := by
  cases x <;> simp [Functor.map, Except.map]

/-- A mapped computation fails exactly as the computation does. -/
theorem map_eq_error_iff {x : Except ε α} {f : α → β} {e : ε} : f <$> x = .error e ↔ x = .error e := by
  cases x <;> simp [Functor.map, Except.map]

/-- **A traversal succeeds** exactly when it maps each element successfully, pointwise. -/
theorem mapM_eq_ok_iff {f : α → Except ε β} {xs : List α} {ys : List β} :
    xs.mapM f = .ok ys ↔ List.Forall₂ (fun x y => f x = .ok y) xs ys := by
  induction xs generalizing ys with
  | nil =>
    rw [List.mapM_nil, List.forall₂_nil_left_iff]
    exact ⟨fun h => by cases h; rfl, fun h => by rw [h]; rfl⟩
  | cons x xs ih =>
    rw [List.mapM_cons, List.forall₂_cons_left_iff]
    simp only [bind_eq_ok_iff, ih]
    constructor
    · rintro ⟨y, hy, ys', hys, hpure⟩
      cases hpure
      exact ⟨y, ys', hy, hys, rfl⟩
    · rintro ⟨y, ys', hy, hys, rfl⟩
      exact ⟨y, hy, ys', hys, rfl⟩

/-- **A failed traversal** failed at one of its elements, with that element's failure. -/
theorem mapM_eq_error {f : α → Except ε β} {e : ε} {xs : List α} (h : xs.mapM f = .error e) :
    ∃ x ∈ xs, f x = .error e := by
  induction xs with
  | nil => cases h
  | cons x xs ih =>
    rw [List.mapM_cons] at h
    cases hx : f x with
    | error e' =>
      rw [hx] at h
      cases h
      exact ⟨x, List.mem_cons_self, hx⟩
    | ok y =>
      rw [hx] at h
      cases hxs : xs.mapM f with
      | error e' =>
        rw [hxs] at h
        cases h
        obtain ⟨x', hx', he⟩ := ih hxs
        exact ⟨x', List.mem_cons_of_mem _ hx', he⟩
      | ok ys =>
        rw [hxs] at h
        cases h

/-- A traversal with a failing element fails. -/
theorem mapM_error_of_mem {f : α → Except ε β} {x : α} {xs : List α} {e : ε} (hx : x ∈ xs)
    (he : f x = .error e) : ∃ e', xs.mapM f = .error e' := by
  cases h : xs.mapM f with
  | error e' => exact ⟨e', rfl⟩
  | ok ys =>
    obtain ⟨y, -, hy⟩ := forall₂_exists_right (mapM_eq_ok_iff.mp h) x hx
    rw [he] at hy
    cases hy

/-- **A loop of checks succeeds** exactly when every check does. -/
theorem forM_eq_ok_iff {f : α → Except ε Unit} {xs : List α} :
    xs.forM f = .ok () ↔ ∀ x ∈ xs, f x = .ok () := by
  induction xs with
  | nil => exact ⟨fun _ x hx => (nomatch hx), fun _ => rfl⟩
  | cons x xs ih =>
    have hcons : (x :: xs).forM f = f x >>= fun _ => xs.forM f := rfl
    rw [hcons, bind_eq_ok_iff, List.forall_mem_cons, ← ih]
    constructor
    · rintro ⟨⟨⟩, hx, hxs⟩
      exact ⟨hx, hxs⟩
    · rintro ⟨hx, hxs⟩
      exact ⟨(), hx, hxs⟩

/-- A failed loop of checks failed at one of its checks, with that check's failure. -/
theorem forM_eq_error {f : α → Except ε Unit} {e : ε} {xs : List α} (h : xs.forM f = .error e) :
    ∃ x ∈ xs, f x = .error e := by
  induction xs with
  | nil => cases h
  | cons x xs ih =>
    have hcons : (x :: xs).forM f = f x >>= fun _ => xs.forM f := rfl
    rw [hcons] at h
    cases hx : f x with
    | error e' =>
      rw [hx] at h
      cases h
      exact ⟨x, List.mem_cons_self, hx⟩
    | ok u =>
      rw [hx] at h
      obtain ⟨x', hx', he⟩ := ih h
      exact ⟨x', List.mem_cons_of_mem _ hx', he⟩

end Except

end LlvmAsm
