import LlvmAsm.Proofs.Written.SecondPass
import LlvmAsm.Proofs.Reading.Progress
import LlvmAsm.Ast.Grammar.Module

/-!
# `Proofs.Printed.Operands` — reading printed operands back

An operand is printed as the text of its local (`%name` or `%N`) or of its constant, after its type
where the instruction shows one. Reading that text gives the operand's written form
(`Value.toAst`, `Value.toTypedAst`) when the numbers of the function's locals fit the 32 bits the
reader takes (`LocalTable.NumbersFit`), a constant reads back (`Const.Readable`) and the type fits
the reader's fields. A call is read the same way: the type it shows, its callee, then its
arguments after their types (`Call.readsAt_parseCall`).
-/

namespace LlvmAsm

/-- The numbers of a table's locals fit the 32 bits the reader takes. -/
def LocalTable.NumbersFit (t : LocalTable) : Prop :=
  ∀ slot id, t.ident slot = .anon id → id < Ast.Reader.bound32

namespace Ast.Reader

variable {fuel : Nat}

/-- Reading a constant at a `%` fails: no constant opens with one. -/
theorem parseConstant_percent {c : Cursor} {r : List Char} (hc : c.rest = '%' :: r) (F : Nat) :
    ∃ e, (parseConstant (F + 2)).run c = .error e := by
  have hhead : c.rest.head? = some '%' := by rw [hc]; rfl
  rw [parseConstant_of_head hhead (by decide) (by decide) (by decide) (by decide) (by decide)
    (by decide) (by decide)]
  simp only [show ('%' = '-' || isDigitChar '%') = false by decide, Bool.false_eq_true, if_false]
  have hskip : c.skipBlanks true = c := Cursor.skipBlanks_of_head hhead (by decide) (by decide) true
  have hword : peekWord.run c = .ok (none, c) := by
    rw [run_peekWord_none (by rw [hskip, hc]; intro x hx; cases hx; decide), hskip]
  obtain ⟨s, hs⟩ := run_found c
  rw [wordConstant, run_bind_ok (run_skipBlanks _ _), hskip, run_bind_ok (run_get c)]
  refine ⟨⟨c.pos, "expected keyword but found " ++ s⟩, run_bind_error ?_⟩
  simp only [readWord]
  rw [run_bind_ok hword]
  refine (run_bind_ok hs).trans ?_
  rfl

/-- The text of a constant that reads back does not open with `%`. -/
theorem ConstReadsBack.head_ne_percent {k : LlvmAsm.Const} (hk : ConstReadsBack k) :
    k.render.toList.head? ≠ some '%' := by
  intro hhead
  obtain ⟨tl, htl⟩ := List.head?_eq_some_iff.mp hhead
  obtain ⟨F, hF⟩ : ∃ F, k.readDepth = F + 2 := ⟨k.readDepth - 2, by
    have := LlvmAsm.Const.two_le_readDepth k; omega⟩
  have hrun := hk.reads (F + 2) (by omega) ⟨k.render.toList, 0⟩ [] (by simp) (by intro x hx; cases hx)
  obtain ⟨e, he⟩ := parseConstant_percent (c := ⟨k.render.toList, 0⟩) htl F
  rw [he] at hrun
  cases hrun

/-- A local is read back as its written name. -/
theorem readsAt_parseValue_local {i : LocalIdent} (hid : ∀ id, i = .anon id → id < bound32) :
    ReadsAt (parseValue fuel) i.render.toList StopsConst (.localRef i.toName) := by
  intro c r hc hr
  obtain ⟨tl, htl⟩ := LocalIdent.toList_render i
  have hhead : c.rest.head? = some '%' := by rw [hc, htl]; rfl
  have hskip : c.skipBlanks true = c := Cursor.skipBlanks_of_head hhead (by decide) (by decide) true
  have hlocal := readsAt_readLocal hid c r hc fun x hx =>
    ⟨(endsConst_facts (hr x hx)).2.2.1, (endsConst_facts (hr x hx)).2.2.2⟩
  unfold parseValue
  rw [run_bind_ok (run_skipBlanks _ _), hskip, run_bind_ok (run_peek _), hhead, if_pos rfl,
    run_bind_ok hlocal]
  rfl

/-- A constant operand is read back as its written constant. -/
theorem readsAt_parseValue_const {k : LlvmAsm.Const} (hk : ConstReadsBack k)
    (hf : k.readDepth ≤ fuel) : ReadsAt (parseValue fuel) k.render.toList StopsConst (.const k.toAst) := by
  intro c r hc hr
  obtain ⟨ch, hch, hb, hs⟩ := hk.head
  have hhead : c.rest.head? = some ch := by
    obtain ⟨tl, htl⟩ := List.head?_eq_some_iff.mp hch
    rw [hc, htl]
    rfl
  have hskip : c.skipBlanks true = c := Cursor.skipBlanks_of_head hhead hb hs true
  have hne : c.rest.head? ≠ some '%' := by
    rw [hhead, ← hch]
    exact hk.head_ne_percent
  unfold parseValue
  rw [run_bind_ok (run_skipBlanks _ _), hskip, run_bind_ok (run_peek _), if_neg hne,
    run_bind_ok (hk.reads fuel hf c r hc hr)]
  rfl

end Ast.Reader

open Ast Reader

namespace Value

variable {t : LocalTable} {v : Value} {fuel : Nat}

theorem toList_renderTyped (t : LocalTable) (v : Value) :
    (v.renderTyped t).toList = v.ty.render.toList ++ ' ' :: (v.render t).toList := by
  simp [renderTyped]

/-- A printed operand reads back as its written form. -/
theorem readsAt_parseValue (ht : t.NumbersFit) (hv : v.Readable)
    (hf : 2 * (v.render t).length < fuel) :
    ReadsAt (parseValue fuel) (v.render t).toList StopsConst (v.toAst t) := by
  cases v with
  | reg slot ty => exact readsAt_parseValue_local (ht slot)
  | const k =>
    have hd := readDepth_le_length_render k hv
    have hlen : k.render.toList.length = ((Value.const k).render t).length := String.length_toList
    exact readsAt_parseValue_const (constReadsBack_of_readable k hv) (by omega)

/-- What may follow a printed operand also stops a type printed before it. -/
theorem stops_render (hv : v.Readable) {r : List Char} (hr : StopsConst r) :
    stopsSuffixes ((v.render t).toList ++ r) ∧ NoBlankAhead ((v.render t).toList ++ r) := by
  cases v with
  | reg slot ty =>
    obtain ⟨tl, htl⟩ := LocalIdent.toList_render (t.ident slot)
    show stopsSuffixes ((t.ident slot).render.toList ++ r) ∧
      NoBlankAhead ((t.ident slot).render.toList ++ r)
    rw [htl, List.cons_append]
    exact ⟨stopsSuffixes_cons (by decide) (by decide) (by decide) (by decide) (by decide),
      fun x hx => by cases hx; decide⟩
  | const k =>
    have hk := constReadsBack_of_readable k hv
    exact ⟨hk.stops r hr, hk.noBlankAhead r⟩

/-- A printed operand after its type reads back as its written typed form. -/
theorem readsAt_parseTypedValue (ht : t.NumbersFit) (hv : v.Readable) (hty : v.ty.fits)
    (hf : 2 * (v.renderTyped t).length < fuel) :
    ReadsAt (parseTypedValue fuel) (v.renderTyped t).toList StopsConst (v.toTypedAst t) := by
  have hlen := congrArg List.length (toList_renderTyped t v)
  simp only [String.length_toList, List.length_append, List.length_cons] at hlen
  have hdepth := Ty.readDepth_le_length_toList v.ty
  rw [String.length_toList] at hdepth
  have hfty : v.ty.readDepth + 1 ≤ fuel := by omega
  have hfv : 2 * (v.render t).length < fuel := by omega
  unfold parseTypedValue
  rw [toList_renderTyped]
  exact ReadsAt.of_text_eq (ReadsAt.bind (readsAt_parseType_space (readsBack_of_fits _ hty) hfty)
    (ReadsAt.bind_pure (readsAt_parseValue ht hv hfv)) fun _ hr => stops_render hv hr) (by simp)

end Value

theorem Ast.Reader.skipsBlanks_parseTypedValue (f : Nat) : SkipsBlanks (parseTypedValue (f + 1)) := by
  unfold parseTypedValue
  exact (skipsBlanks_parseType f).bind _

theorem Ast.Reader.skipsBlanks_callArgs (f s : Nat) : SkipsBlanks (callArgs (f + 1) (s + 1)) := by
  rw [callArgs]
  exact (skipsBlanks_parseTypedValue f).bind _

/-- A member of a list is no longer than the list joined with separators. -/
theorem length_le_intercalate (sep : String) {x : String} {l : List String} (hx : x ∈ l) :
    x.length ≤ (sep.intercalate l).length := by
  induction l with
  | nil => cases hx
  | cons a rest ih =>
    cases rest with
    | nil =>
      rw [List.mem_singleton] at hx
      rw [hx, String.intercalate_singleton]
    | cons b rest' =>
      rw [String.intercalate_cons_cons, String.length_append, String.length_append]
      rcases List.mem_cons.mp hx with rfl | hx
      · omega
      · have := ih hx
        omega

namespace Call

variable {t : LocalTable} {fuel : Nat}

/-- The arguments of a call, each after its type and separated by `, `, up to the `)`. -/
theorem readsAt_callArgs (ht : t.NumbersFit) {args : List Value}
    (hargs : ∀ a ∈ args, a.Readable ∧ a.ty.fits ∧ 2 * (a.renderTyped t).length < fuel) :
    args ≠ [] → ∀ {steps : Nat}, args.length ≤ steps →
      ReadsAt (callArgs fuel steps)
        ((", ".intercalate (args.map (·.renderTyped t))).toList ++ [')']) (fun _ => True)
        (args.map (·.toTypedAst t)) := by
  induction args with
  | nil => exact fun h => absurd rfl h
  | cons a rest ih =>
    intro _ steps hsteps
    obtain ⟨s, rfl⟩ : ∃ s, steps = s + 1 := ⟨steps - 1, by simp at hsteps; omega⟩
    obtain ⟨ha, hty, hf⟩ := hargs a List.mem_cons_self
    have hfirst := Value.readsAt_parseTypedValue ht ha hty hf
    rw [callArgs]
    cases rest with
    | nil =>
      -- the last argument, then the `)`
      refine ReadsAt.of_text_eq (ReadsAt.bind hfirst
        (ReadsAt.bind (readsAt_tryChar_hit (F := fun _ => True) (by decide) (by decide))
          (ReadsAt.pure _) fun _ _ => trivial) fun _ _ x hx => ?_) (by simp)
      cases hx
      decide
    | cons b rest' =>
      have hrest := ih (fun x hx => hargs x (List.mem_cons_of_mem a hx)) (List.cons_ne_nil b rest')
        (show (b :: rest').length ≤ s by simp only [List.length_cons] at hsteps ⊢; omega)
      obtain ⟨F, rfl⟩ : ∃ F, fuel = F + 1 := ⟨fuel - 1, by omega⟩
      obtain ⟨s', rfl⟩ : ∃ s', s = s' + 1 := ⟨s - 1, by simp only [List.length_cons] at hsteps; omega⟩
      -- an argument, no `)`, the `,`, and the others after a space
      refine ReadsAt.of_text_eq (ReadsAt.bind hfirst
        (ReadsAt.bind readsAt_tryChar_miss
          (ReadsAt.bind (readsAt_expect (F := fun _ => True) (by decide) (by decide))
            (ReadsAt.bind_pure (hrest.space (skipsBlanks_callArgs F s')))
            fun _ _ => trivial)
          fun _ _ => ⟨fun x hx => ?_, fun h => ?_⟩)
        fun _ _ x hx => ?_) (by simp)
      · cases hx
        exact ⟨by decide, by decide⟩
      · cases h
      · cases hx
        decide

/-- The text of an operand after its type opens with the type. -/
theorem Value.renderTyped_head (t : LocalTable) (v : Value) :
    ∃ ch ∈ Ty.openers, (v.renderTyped t).toList.head? = some ch := by
  obtain ⟨ch, hopen, hch⟩ := Ty.render_head v.ty
  obtain ⟨tl, htl⟩ := List.head?_eq_some_iff.mp hch
  exact ⟨ch, hopen, by rw [Value.toList_renderTyped, htl]; rfl⟩

/-- The type a call shows: its whole signature when it takes more arguments, its return type
otherwise. -/
def shownTy (c : Call) : Ty := if c.sig.variadic then c.sig.toTy else c.sig.ret

theorem toList_render (t : LocalTable) (c : Call) :
    (c.render t).toList = c.shownTy.render.toList ++ ' ' :: ((c.callee.render t).toList ++
      '(' :: ((", ".intercalate (c.args.map (·.renderTyped t))).toList ++ [')'])) := by
  have hshown : (if c.sig.variadic then c.sig.toTy.render else c.sig.ret.render) =
      c.shownTy.render := by
    unfold shownTy
    split <;> rfl
  simp [render, hshown]

/-- **A printed call reads back as its written form**: the type it shows, the callee, and the
arguments after their types between parentheses. -/
theorem readsAt_parseCall (ht : t.NumbersFit) {c : Call} {steps : Nat} (hcallee : c.callee.Readable)
    (hargs : ∀ a ∈ c.args, a.Readable ∧ a.ty.fits) (hty : c.shownTy.fits)
    (hf : 2 * (c.render t).length < fuel) (hsteps : c.args.length ≤ steps) :
    ReadsAt (parseCall fuel steps) (c.render t).toList (fun _ => True) (c.toAst t) := by
  have hlen := congrArg List.length (toList_render t c)
  simp only [String.length_toList, List.length_append, List.length_cons] at hlen
  have hdepth := Ty.readDepth_le_length_toList c.shownTy
  rw [String.length_toList] at hdepth
  have hfty : c.shownTy.readDepth + 1 ≤ fuel := by omega
  have hfcallee : 2 * (c.callee.render t).length < fuel := by omega
  have htext : (c.render t).toList = (c.shownTy.render.toList ++ [' ']) ++
      ((c.callee.render t).toList ++ (['('] ++
        ((", ".intercalate (c.args.map (·.renderTyped t))).toList ++ [')']))) := by
    rw [toList_render]
    simp
  unfold parseCall
  rw [htext]
  refine ReadsAt.bind (readsAt_parseType_space (readsBack_of_fits _ hty) hfty)
    (ReadsAt.bind (Value.readsAt_parseValue ht hcallee hfcallee)
      (ReadsAt.bind (readsAt_expect (F := fun _ => True) (by decide) (by decide)) ?_
        fun _ _ => trivial)
      fun _ _ x hx => by cases hx; decide)
    fun _ _ => by
      rw [List.append_assoc]
      exact Value.stops_render hcallee fun x hx => by cases hx; decide
  -- the arguments and the `)`, read once `(` is
  show ReadsAt _ _ _ (Ast.Call.mk c.shownTy (c.callee.toAst t) (c.args.map (·.toTypedAst t)))
  cases hc : c.args with
  | nil =>
    exact ReadsAt.of_text_eq (ReadsAt.bind (readsAt_tryChar_hit (F := fun _ => True)
      (by decide : Cursor.isBlank ')' = false) (by decide : ')' ≠ ';'))
      (ReadsAt.bind (ReadsAt.pure (F := fun _ => True) []) (ReadsAt.pure _) fun _ _ => trivial)
      fun _ _ => trivial) (by simp)
  | cons a rest =>
    have hlen' : 2 * (", ".intercalate (c.args.map (·.renderTyped t))).length < fuel := by omega
    rw [hc] at hargs hsteps hlen'
    have hargs' : ∀ x ∈ a :: rest, x.Readable ∧ x.ty.fits ∧ 2 * (x.renderTyped t).length < fuel :=
      fun x hx => ⟨(hargs x hx).1, (hargs x hx).2, by
        have := length_le_intercalate ", " (List.mem_map_of_mem hx (f := (·.renderTyped t)))
        omega⟩
    obtain ⟨ch, hopen, hhead⟩ := Value.renderTyped_head t a
    obtain ⟨tl, htl⟩ := List.head?_eq_some_iff.mp hhead
    refine ReadsAt.of_text_eq (ReadsAt.bind readsAt_tryChar_miss
      (ReadsAt.bind (readsAt_callArgs ht hargs' (List.cons_ne_nil _ _) hsteps) (ReadsAt.pure _)
        fun _ _ => trivial)
      fun r _ => ?_) (by simp)
    -- the first argument opens with its type, neither a blank nor a `)`
    have hh : (((", ".intercalate ((a :: rest).map (Value.renderTyped t))).toList ++ [')']) ++ [] ++
        r).head? = some ch := by
      cases rest <;> simp [htl]
    refine ⟨fun x hx => ?_, fun h => ?_⟩
    · rw [hh] at hx
      cases hx
      exact typeOpener_facts ch hopen
    · rw [hh] at h
      cases h
      exact absurd hopen (by decide)

end Call

end LlvmAsm
