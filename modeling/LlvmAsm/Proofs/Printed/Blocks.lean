import LlvmAsm.Proofs.Printed.Instructions

/-!
# `Proofs.Printed.Blocks` — reading printed blocks back

A block is printed as its label and then its lines, each after a line feed and a tab: its
instructions and its terminator. Each line but a store's, a `void` call's and a terminator's opens
with the written name of its result and ` = ` (`resultText`).

`blockRest` reads the lines one at a time. A line is read up to the line feed that ends it, except
a phi's, whose reader looks past the line feed and tab for another incoming pair; the next line is
then read from where that left the cursor. So the lines are read as one text with the gaps between
them (`Block.linesText`), and `Block.readsAt_blockRest` reads it by induction over the instructions,
given what each needs (`Instruction.Rereads`, `Terminator.Rereads`).
-/

namespace LlvmAsm

open Ast Reader

/-- The text before an opcode: the written name of a numbered result and ` = `. -/
def resultText (t : LocalTable) : Option Nat → String
  | some slot => (t.ident slot).render ++ " = "
  | none => ""

theorem Instruction.render_eq (t : LocalTable) (i : Instruction) :
    i.render t = resultText t i.numberedSlot ++ (i.kind.opcode ++ i.kind.operandsText t) := by
  unfold Instruction.render
  dsimp only
  -- the result's text agrees by unfolding; the rest is one case per kind
  congr 1
  cases i.kind <;> simp [InstKind.opcode, InstKind.operandsText, ← String.append_assoc]
  -- a phi's pairs are printed by a pattern function, which is `phiPairText`
  rfl

namespace Ast.Reader

variable {t : LocalTable}

/-- The start of a line: after the blanks, the written name of a numbered result and its `=`
when the line opens with `%`, then what follows is read with the result's name. -/
theorem readsAt_result {α : Type} {k : Option LocalName → Reader α} (ht : t.NumbersFit)
    (slot? : Option Nat) {tail : List Char} {F : List Char → Prop} {a : α} {ch : Char}
    (hhead : tail.head? = some ch) (hch : isWordChar ch = true)
    (hk : SkipsBlanks (k (slot?.map t.name))) (h : ReadsAt (k (slot?.map t.name)) tail F a) :
    ReadsAt (skipBlanks true >>= fun _ => peek >>= fun x =>
        if x = some '%' then readLocal >>= fun r => expect '=' >>= fun _ =>
          (Pure.pure (some r) : Reader (Option LocalName)) >>= k
        else (Pure.pure none : Reader (Option LocalName)) >>= k)
      ((resultText t slot?).toList ++ tail) F a := by
  cases slot? with
  | none =>
    have hnb := noBlankAhead_of_word (r := []) (List.cons_ne_nil ch [])
      (fun x hx => by rw [List.mem_singleton.mp hx]; exact hch)
    obtain ⟨hb, hs⟩ := hnb ch rfl
    refine readsAt_skip_peek hhead hb hs ?_
    have hne : ch ≠ '%' := fun he => by rw [he] at hch; exact absurd hch (by decide)
    rw [if_neg (fun he => hne (Option.some.inj he))]
    exact ReadsAt.bind (ReadsAt.pure (F := fun _ => True) none) h fun _ _ => trivial
  | some slot =>
    obtain ⟨tl, htl⟩ := LocalIdent.toList_render (t.ident slot)
    have hid : ∀ id, t.ident slot = .anon id → id < bound32 := ht slot
    refine readsAt_skip_peek
      (show ((resultText t (some slot)).toList ++ tail).head? = some '%' by simp [resultText, htl])
      (by decide) (by decide) ?_
    rw [if_pos rfl]
    refine ReadsAt.of_text_eq (ReadsAt.bind (readsAt_readLocal hid)
      (ReadsAt.bind ((readsAt_expect (F := fun _ => True) (by decide) (by decide)).space
          (skipsBlanks_expect '='))
        (ReadsAt.bind (ReadsAt.pure (F := fun _ => True) _) (h.space hk) fun _ _ => trivial)
        fun _ _ => trivial)
      fun _ _ x hx => ?_) (by simp [resultText])
    cases hx
    decide

/-- A word read as the string it spells. -/
theorem readsAt_readWord_toList {w : String} (hne : w.toList ≠ []) (hw : ∀ x ∈ w.toList, isWordChar x) :
    ReadsAt readWord w.toList (fun r => ∀ x ∈ r.head?, isWordChar x = false) w := by
  have h := readsAt_readWord hne hw
  rwa [String.ofList_toList] at h

/-- Text after which a stopping character stands keeps its leading run. -/
theorem takeWhile_append_stop {p : Char → Bool} {xs ys : List Char}
    (hy : ∀ y ∈ ys.head?, p y = false) : (xs ++ ys).takeWhile p = xs.takeWhile p := by
  rw [List.takeWhile_append]
  split
  · rename_i hlen
    have hys : ys.takeWhile p = [] := by
      cases ys with
      | nil => rfl
      | cons y ys => simp [hy y rfl]
    rw [hys, List.append_nil, (List.takeWhile_prefix p).eq_of_length hlen]
  · rfl

/-- ` label %x`: the word `label` and then a local, each after a space. -/
theorem readsAt_labelRef {α : Type} {k : LocalName → Reader α} {i : LocalIdent} {tail : List Char}
    {F : List Char → Prop} {a : α} (hid : ∀ id, i = .anon id → id < bound32)
    (htail : ∀ r, F r → ∀ x ∈ (tail ++ r).head?, isNameChar x = false ∧ isDigitChar x = false)
    (h : ReadsAt (k i.toName) tail F a) :
    ReadsAt (expectWord "label" >>= fun _ => readLocal >>= k)
      ((' ' :: "label".toList) ++ ((' ' :: i.render.toList) ++ tail)) F a :=
  ReadsAt.bind ((readsAt_expectWord (by decide) (forall_mem_of_all (by decide))).space
      (skipsBlanks_expectWord _))
    (ReadsAt.bind ((readsAt_readLocal hid).space skipsBlanks_readLocal) h htail)
    fun _ _ x hx => by cases hx; decide

theorem skipsBlanks_blockRest (f : Nat) (label : Option LocalName) (s : Nat)
    (acc : List Ast.Instruction) : SkipsBlanks (blockRest f label (s + 1) acc) := by
  rw [blockRest]
  exact skipsBlanks_skip_bind _

/-- A line opens with `%` or with its opcode's first letter: no blank, `;` or `,`. -/
theorem resultText_head (t : LocalTable) (slot? : Option Nat) {rest : List Char} {ch : Char}
    (hhead : rest.head? = some ch) (hch : isWordChar ch = true) :
    NoBlankAhead ((resultText t slot?).toList ++ rest) ∧
      ((resultText t slot?).toList ++ rest).head? ≠ some ',' := by
  cases slot? with
  | none =>
    have hnb := noBlankAhead_of_word (r := []) (List.cons_ne_nil ch [])
      (fun x hx => by rw [List.mem_singleton.mp hx]; exact hch)
    have hcomma : ch ≠ ',' := fun he => by rw [he] at hch; exact absurd hch (by decide)
    refine ⟨fun x hx => ?_, fun he => hcomma (Option.some.inj (hhead.symm.trans he))⟩
    rw [show (resultText t none).toList = [] from rfl, List.nil_append, hhead] at hx
    exact hnb x hx
  | some slot =>
    obtain ⟨tl, htl⟩ := LocalIdent.toList_render (t.ident slot)
    have hhead' : ((resultText t (some slot)).toList ++ rest).head? = some '%' := by
      simp [resultText, htl]
    refine ⟨fun x hx => ?_, by rw [hhead']; decide⟩
    rw [hhead'] at hx
    cases hx
    decide

end Ast.Reader

namespace Value

variable {t : LocalTable}

/-- An operand after its type opens with the type's text, at no blank. -/
theorem noBlankAhead_renderTyped (v : Value) (rest : List Char) :
    NoBlankAhead ((v.renderTyped t).toList ++ rest) := by
  obtain ⟨ch, hopen, hch⟩ := Ty.render_head v.ty
  intro x hx
  rw [toList_renderTyped, List.append_assoc, List.head?_append, hch] at hx
  obtain rfl := Option.some.inj hx
  exact forall_mem_of_all (p := fun ch => Cursor.isBlank ch = false ∧ ch ≠ ';') (l := Ty.openers)
    (by decide) ch hopen

/-- The word an operand's text opens with after its type is the word its type opens with. -/
theorem takeWhile_renderTyped (v : Value) (rest : List Char) :
    ((v.renderTyped t).toList ++ rest).takeWhile isWordChar =
      v.ty.render.toList.takeWhile isWordChar := by
  rw [toList_renderTyped, List.append_assoc, List.cons_append]
  exact takeWhile_append_stop fun y hy => by cases hy; decide

end Value

/-- A list is at most one longer than its members joined with `, `. -/
theorem length_le_intercalate_comma (l : List String) :
    l.length ≤ (", ".intercalate l).length + 1 := by
  induction l with
  | nil => simp
  | cons a rest ih =>
    cases rest with
    | nil => simp
    | cons b rest' =>
      rw [String.intercalate_cons_cons, String.length_append, String.length_append]
      have hsep : (", " : String).length = 2 := rfl
      simp only [List.length_cons] at ih ⊢
      omega

theorem Call.args_length_le (t : LocalTable) (c : Call) : c.args.length ≤ (c.render t).length := by
  have hlen := congrArg List.length (Call.toList_render t c)
  have hsep := length_le_intercalate_comma (c.args.map (·.renderTyped t))
  simp only [String.length_toList, List.length_append, List.length_cons, List.length_nil,
    List.length_map] at hlen hsep
  omega

namespace InstKind

variable {t : LocalTable} {fuel steps : Nat}

theorem opcode_word (k : InstKind) : k.opcode.toList ≠ [] ∧ ∀ x ∈ k.opcode.toList, isWordChar x := by
  cases k with
  | binary op => exact ⟨(binaryKeyword_facts op).2.2.2, (binaryKeyword_facts op).1⟩
  | _ => exact ⟨by simp [opcode], by simp only [opcode]; exact forall_mem_of_all (by decide)⟩

/-- No instruction's opcode is one that ends a block. -/
theorem opcode_ne (k : InstKind) :
    k.opcode ≠ "invoke" ∧ k.opcode ≠ "ret" ∧ k.opcode ≠ "br" ∧ k.opcode ≠ "unreachable" := by
  cases k with
  | binary op => cases op <;> (simp only [opcode]; decide)
  | _ => simp only [opcode]; decide

theorem operandsText_head (k : InstKind) : ∃ tl, (k.operandsText t).toList = ' ' :: tl := by
  cases k <;> simp [operandsText]

/-- **Every instruction but a phi reads back up to the end of its line.** -/
theorem readsAt_parseInstKind (ht : t.NumbersFit) {k : InstKind} (hk : k.Rereads)
    (hphi : ∀ ty incoming, k ≠ .phi ty incoming) (hf : 2 * (k.operandsText t).length < fuel)
    (hsteps : (k.operandsText t).length ≤ steps) :
    ReadsAt (parseInstKind fuel steps k.opcode) (k.operandsText t).toList AtLineEnd (k.toAst t) := by
  cases k with
  | binary op l r =>
    obtain ⟨tl, htl⟩ := operandsText_head (t := t) (.binary op l r)
    have hpos := congrArg List.length htl
    simp only [String.length_toList, List.length_cons] at hpos
    exact readsAt_binary ht hk hf (by omega)
  | icmp pred l r => exact readsAt_icmp ht hk hf
  | alloca elem => exact readsAt_alloca hk hf
  | load ty ptr => exact readsAt_load ht hk hf
  | store v ptr => exact readsAt_store ht hk hf
  | phi ty incoming => exact absurd rfl (hphi ty incoming)
  | call c =>
    have hargs := Call.args_length_le t c
    have hlen : ((InstKind.call c).operandsText t).length = 1 + (c.render t).length := by
      simp only [operandsText, String.length_append]
      rfl
    exact readsAt_call ht hk hf (by omega)

end InstKind

namespace Terminator

/-- The word a terminator's text opens with, after its result. -/
def opcode : Terminator → String
  | .ret _ => "ret"
  | .br _ => "br"
  | .condBr .. => "br"
  | .unreachable => "unreachable"
  | .invoke .. => "invoke"

/-- The text of a terminator after its opcode. -/
def operandsText (t : LocalTable) : Terminator → String
  | .ret none => " void"
  | .ret (some v) => " " ++ v.renderTyped t
  | .br target => " label " ++ (t.ident target).render
  | .condBr c a b =>
    " " ++ c.renderTyped t ++ ", label " ++ (t.ident a).render ++ ", label " ++ (t.ident b).render
  | .unreachable => ""
  | .invoke _ c normal unwind =>
    " " ++ c.render t ++ " to label " ++ (t.ident normal).render ++ " unwind label " ++
      (t.ident unwind).render

theorem render_eq (t : LocalTable) (term : Terminator) :
    term.render t = resultText t term.numberedSlot ++ (term.opcode ++ term.operandsText t) := by
  cases term with
  | ret v =>
    cases v <;> simp [render, numberedSlot, resultText, opcode, operandsText, ← String.append_assoc]
  | invoke result c normal unwind =>
    cases hv : c.sig.ret.isVoid <;>
      simp [render, numberedSlot, hv, resultText, opcode, operandsText, ← String.append_assoc]
  | _ => simp [render, numberedSlot, resultText, opcode, operandsText, ← String.append_assoc]

/-- **What a terminator needs for its text to read back**: its operands and the type its call
shows read back, a returned value is not of type `void` (which reads as `ret void`), and a branch
condition's type does not open with the word `label` (which reads as an unconditional branch). -/
structure Rereads (term : Terminator) : Prop where
  values : ∀ v ∈ term.values, v.Readable ∧ v.ty.fits
  shown : ∀ c ∈ term.call?, c.shownTy.fits
  retType : ∀ v, term = .ret (some v) → v.ty ≠ .void
  condType : ∀ c a b, term = .condBr c a b → c.ty.render.toList.takeWhile isWordChar ≠ "label".toList

variable {t : LocalTable} {fuel : Nat}

theorem readsAt_ret_void (hf : 2 * ((Terminator.ret none).operandsText t).length < fuel) :
    ReadsAt (parseTerminator fuel "ret") ((Terminator.ret none).operandsText t).toList AtLineEnd
      ((Terminator.ret none).toAst t) := by
  have hlen : ((Terminator.ret none).operandsText t).length = 5 := by
    simp only [operandsText]
    rfl
  obtain ⟨F, rfl⟩ : ∃ F, fuel = F + 1 := ⟨fuel - 1, by omega⟩
  have hvoid := (readsAt_parseType_eol readsBack_void
    (show Ty.void.readDepth + 1 ≤ F + 1 by simp only [Ty.readDepth]; omega)).space
    (skipsBlanks_parseType F)
  unfold parseTerminator
  exact ReadsAt.of_text_eq (ReadsAt.bind hvoid (ReadsAt.pure _) fun _ h => h)
    (by simp only [operandsText]; rfl)

theorem readsAt_ret_value (ht : t.NumbersFit) {v : Value} (hterm : (Terminator.ret (some v)).Rereads)
    (hf : 2 * ((Terminator.ret (some v)).operandsText t).length < fuel) :
    ReadsAt (parseTerminator fuel "ret") ((Terminator.ret (some v)).operandsText t).toList AtLineEnd
      ((Terminator.ret (some v)).toAst t) := by
  obtain ⟨hv, hty⟩ := hterm.values v (by simp [values])
  have hnv := hterm.retType v rfl
  have htext : ((Terminator.ret (some v)).operandsText t).toList =
      (' ' :: (v.ty.render.toList ++ [' '])) ++ (v.render t).toList := by
    simp [operandsText, Value.toList_renderTyped]
  have hlen := congrArg List.length htext
  simp only [String.length_toList, List.length_append, List.length_cons, List.length_nil] at hlen
  have hdepth := Ty.readDepth_le_length_toList v.ty
  rw [String.length_toList] at hdepth
  obtain ⟨F, rfl⟩ : ∃ F, fuel = F + 1 := ⟨fuel - 1, by omega⟩
  unfold parseTerminator
  rw [htext]
  refine ReadsAt.bind ((readsAt_parseType_space (readsBack_of_fits _ hty) (by omega)).space
      (skipsBlanks_parseType F)) ?_ fun r hr => Value.stops_render hv (stopsConst_of_atLineEnd hr)
  rw [if_neg hnv]
  exact ReadsAt.bind_pure ((Value.readsAt_parseValue ht hv (by omega)).mono
    fun _ h => stopsConst_of_atLineEnd h)

theorem readsAt_br (ht : t.NumbersFit) {target : Nat} :
    ReadsAt (parseTerminator fuel "br") ((Terminator.br target).operandsText t).toList AtLineEnd
      ((Terminator.br target).toAst t) := by
  have htext : ((Terminator.br target).operandsText t).toList =
      (' ' :: "label".toList) ++ (' ' :: (t.ident target).render.toList) := by
    simp [operandsText]
  unfold parseTerminator
  rw [htext]
  exact ReadsAt.bind ((readsAt_tryWord_hit (by decide) (forall_mem_of_all (by decide))).space
      (skipsBlanks_tryWord _))
    (ReadsAt.bind_pure (((readsAt_readLocal (ht target)).mono
      fun r hr x hx => by rw [hr x hx]; decide).space skipsBlanks_readLocal))
    fun _ _ x hx => by cases hx; decide

theorem readsAt_condBr (ht : t.NumbersFit) {c : Value} {a b : Nat}
    (hterm : (Terminator.condBr c a b).Rereads)
    (hf : 2 * ((Terminator.condBr c a b).operandsText t).length < fuel) :
    ReadsAt (parseTerminator fuel "br") ((Terminator.condBr c a b).operandsText t).toList AtLineEnd
      ((Terminator.condBr c a b).toAst t) := by
  obtain ⟨hc, hcty⟩ := hterm.values c (by simp [values])
  have hword := hterm.condType c a b rfl
  have htext : ((Terminator.condBr c a b).operandsText t).toList =
      [' '] ++ ((c.renderTyped t).toList ++ ([','] ++ ((' ' :: "label".toList) ++
        ((' ' :: (t.ident a).render.toList) ++ ([','] ++ ((' ' :: "label".toList) ++
          ((' ' :: (t.ident b).render.toList) ++ []))))))) := by
    simp [operandsText]
  have hlen := congrArg List.length htext
  simp only [String.length_toList, List.length_append, List.length_cons, List.length_nil] at hlen
  unfold parseTerminator
  rw [htext]
  -- the condition's type does not open with the word `label`, so this is no plain branch
  exact ReadsAt.bind ((readsAt_tryWord_other (w := "label")).space (skipsBlanks_tryWord _))
    (ReadsAt.bind (Value.readsAt_parseTypedValue ht hc hcty (by omega))
      (ReadsAt.bind (readsAt_expect (F := fun _ => True) (by decide) (by decide))
        (readsAt_labelRef (ht a) (fun _ _ x hx => by cases hx; decide)
          (ReadsAt.bind (readsAt_expect (F := fun _ => True) (by decide) (by decide))
            (readsAt_labelRef (ht b) (fun r hr x hx => by rw [hr x hx]; decide) (ReadsAt.pure _))
            fun _ _ => trivial))
        fun _ _ => trivial)
      fun _ _ x hx => by cases hx; decide)
    fun r _ => by
      rw [List.append_assoc]
      exact ⟨Value.noBlankAhead_renderTyped c _, by rw [Value.takeWhile_renderTyped]; exact hword⟩

theorem readsAt_unreachable :
    ReadsAt (parseTerminator fuel "unreachable") (Terminator.unreachable.operandsText t).toList
      AtLineEnd (Terminator.unreachable.toAst t) := by
  unfold parseTerminator
  exact ReadsAt.pure _

/-- After its opcode a terminator's text goes on with a space or ends its line. -/
theorem operandsText_head (term : Terminator) {r : List Char} (hr : AtLineEnd r) :
    ∀ x ∈ ((term.operandsText t).toList ++ r).head?, isWordChar x = false := by
  intro x hx
  cases term with
  | ret v => cases v <;> simp [operandsText] at hx <;> (subst hx; decide)
  | unreachable =>
    rw [show (Terminator.unreachable.operandsText t).toList = [] by simp [operandsText]] at hx
    rw [hr x hx]
    decide
  | _ => simp [operandsText] at hx; subst hx; decide

theorem opcode_head (term : Terminator) (rest : String) :
    ∃ ch, (term.opcode ++ rest).toList.head? = some ch ∧ isWordChar ch = true := by
  cases term <;> simp [opcode] <;> decide

/-- **A terminator's line reads back as the end of its block**: the instructions read before it
and the written form of the terminator. -/
theorem readsAt_blockRest (ht : t.NumbersFit) {term : Terminator} (hterm : term.Rereads)
    (hf : 2 * (term.render t).length < fuel) {steps : Nat}
    (hsteps : ∀ c ∈ term.call?, c.args.length ≤ steps) (label : Option LocalName)
    (acc : List Ast.Instruction) :
    ReadsAt (blockRest fuel label (steps + 1) acc) (term.render t).toList AtLineEnd
      ⟨label, acc.reverse, term.toAst t⟩ := by
  have hlen : 2 * (term.operandsText t).length < fuel := by
    rw [render_eq, String.length_append, String.length_append] at hf
    omega
  obtain ⟨ch, hhead, hch⟩ := opcode_head term (term.operandsText t)
  rw [blockRest, render_eq, String.toList_append]
  refine readsAt_result ht term.numberedSlot hhead hch (skipsBlanks_readWord.bind _) ?_
  rw [String.toList_append]
  -- the opcode selects the terminator's reader; none of them is preceded by a result but `invoke`
  cases term with
  | ret v =>
    refine ReadsAt.bind (readsAt_readWord_toList (w := "ret") (by decide) (forall_mem_of_all (by decide))) ?_
      fun r hr => operandsText_head _ hr
    cases v with
    | none => exact ReadsAt.bind_pure (readsAt_ret_void hlen)
    | some v => exact ReadsAt.bind_pure (readsAt_ret_value ht hterm hlen)
  | br target =>
    exact ReadsAt.bind (readsAt_readWord_toList (w := "br") (by decide) (forall_mem_of_all (by decide)))
      (ReadsAt.bind_pure (readsAt_br ht)) fun r hr => operandsText_head _ hr
  | condBr c a b =>
    exact ReadsAt.bind (readsAt_readWord_toList (w := "br") (by decide) (forall_mem_of_all (by decide)))
      (ReadsAt.bind_pure (readsAt_condBr ht hterm hlen)) fun r hr => operandsText_head _ hr
  | unreachable =>
    exact ReadsAt.bind
      (readsAt_readWord_toList (w := "unreachable") (by decide) (forall_mem_of_all (by decide)))
      (ReadsAt.bind_pure readsAt_unreachable) fun r hr => operandsText_head _ hr
  | invoke result c normal unwind =>
    have hcallee := (hterm.values c.callee (by simp [values, Call.values])).1
    have hargs : ∀ a ∈ c.args, a.Readable ∧ a.ty.fits := fun a ha =>
      hterm.values a (by simp [values, Call.values, ha])
    have hshown := hterm.shown c rfl
    have htext : ((Terminator.invoke result c normal unwind).operandsText t).toList =
        (' ' :: (c.render t).toList) ++ ((' ' :: "to".toList) ++ ((' ' :: "label".toList) ++
          ((' ' :: (t.ident normal).render.toList) ++ ((' ' :: "unwind".toList) ++
            ((' ' :: "label".toList) ++ ((' ' :: (t.ident unwind).render.toList) ++ [])))))) := by
      simp [operandsText]
    have hlen' := congrArg List.length htext
    simp only [String.length_toList, List.length_append, List.length_cons, List.length_nil] at hlen'
    obtain ⟨F, rfl⟩ : ∃ F, fuel = F + 1 := ⟨fuel - 1, by omega⟩
    have hskip : SkipsBlanks (parseCall (F + 1) steps) := by
      unfold parseCall
      exact (skipsBlanks_parseType F).bind _
    refine ReadsAt.bind
      (readsAt_readWord_toList (w := "invoke") (by decide) (forall_mem_of_all (by decide))) ?_
      fun r hr => operandsText_head _ hr
    rw [htext]
    exact ReadsAt.bind ((Call.readsAt_parseCall ht hcallee hargs hshown (by omega)
        (hsteps c rfl)).space hskip)
      (ReadsAt.bind ((readsAt_expectWord (by decide) (forall_mem_of_all (by decide))).space
          (skipsBlanks_expectWord _))
        (readsAt_labelRef (ht normal) (fun _ _ x hx => by cases hx; decide)
          (ReadsAt.bind ((readsAt_expectWord (by decide) (forall_mem_of_all (by decide))).space
              (skipsBlanks_expectWord _))
            (readsAt_labelRef (ht unwind) (fun r hr x hx => by rw [hr x hx]; decide)
              (ReadsAt.pure _))
            fun _ _ x hx => by cases hx; decide))
        fun _ _ x hx => by cases hx; decide)
      fun _ _ => trivial

theorem args_length_lt {term : Terminator} {c : Call} (hc : c ∈ term.call?) :
    c.args.length < (term.render t).length := by
  cases term with
  | invoke result c' normal unwind =>
    cases hc
    have hargs := Call.args_length_le t c
    have hspace : (" " : String).length = 1 := rfl
    simp only [render_eq, operandsText, String.length_append]
    omega
  | _ => cases hc

end Terminator

namespace Instruction

variable {t : LocalTable} {fuel : Nat}

/-- **An instruction's line reads back**, its result named as written, and the lines after it
are read from there: past the line feed and tab that end it, or from where a phi's reader leaves
the cursor after them. -/
theorem readsAt_blockRest (ht : t.NumbersFit) {i : Instruction} (hi : i.kind.Rereads)
    (hf : 2 * (i.render t).length < fuel) {steps : Nat} (hsteps : (i.render t).length ≤ steps)
    (label : Option LocalName) (acc : List Ast.Instruction) {tail : List Char} {b : Ast.Block}
    (htail : ∀ r, NoBlankAhead (tail ++ r) ∧ (tail ++ r).head? ≠ some ',')
    (hskip : SkipsBlanks (blockRest fuel label steps (i.toAst t :: acc)))
    (hrest : ReadsAt (blockRest fuel label steps (i.toAst t :: acc)) tail AtLineEnd b) :
    ReadsAt (blockRest fuel label (steps + 1) acc) ((i.render t).toList ++ '\n' :: '\t' :: tail)
      AtLineEnd b := by
  obtain ⟨result, kind⟩ := i
  have hlen : (kind.operandsText t).length ≤ (Instruction.render t ⟨result, kind⟩).length := by
    simp only [render_eq, String.length_append]
    omega
  obtain ⟨hne, hw⟩ := kind.opcode_word
  obtain ⟨x, xs, hx⟩ := List.exists_cons_of_ne_nil hne
  rw [blockRest, render_eq, String.toList_append, List.append_assoc]
  refine readsAt_result ht _
    (show ((kind.opcode ++ kind.operandsText t).toList ++ '\n' :: '\t' :: tail).head? = some x by
      simp [hx])
    (hw x (by simp [hx])) (skipsBlanks_readWord.bind _) ?_
  rw [String.toList_append, List.append_assoc]
  obtain ⟨tl, htl⟩ := kind.operandsText_head (t := t)
  refine ReadsAt.bind (readsAt_readWord_toList hne hw) ?_ fun r _ y hy => by
    rw [htl] at hy
    cases hy
    decide
  -- the opcode is none of those that end a block
  obtain ⟨hinvoke, hret, hbr, hunreachable⟩ := kind.opcode_ne
  split
  · next h => exact absurd h hinvoke
  · next h => exact absurd h hret
  · next h => exact absurd h hbr
  · next h => exact absurd h hunreachable
  by_cases hphi : ∃ ty incoming, kind = .phi ty incoming
  · obtain ⟨ty, incoming, rfl⟩ := hphi
    have hpairs := length_le_intercalate_comma (incoming.map (InstKind.phiPairText t))
    have hops : ((InstKind.phi ty incoming).operandsText t).length =
        1 + ty.render.length + 1 + (", ".intercalate (incoming.map (InstKind.phiPairText t))).length := by
      simp only [InstKind.operandsText, String.length_append]
      rfl
    rw [List.length_map] at hpairs
    exact ReadsAt.of_text_eq (ReadsAt.bind (InstKind.readsAt_phi ht hi (by omega) (by omega))
      hrest fun r _ => htail r) (by simp)
  · simp only [not_exists] at hphi
    exact ReadsAt.bind (InstKind.readsAt_parseInstKind (k := kind) ht hi hphi (by omega) (by omega))
      ((hrest.blank (by decide) hskip).blank (by decide) hskip)
      fun _ _ y hy => by cases hy; rfl

end Instruction

namespace Block

/-- The lines of a block after its label's: its instructions and then its terminator, with a
line feed and a tab between any two. -/
def linesText (t : LocalTable) : List Instruction → Terminator → List Char
  | [], term => (term.render t).toList
  | i :: insts, term => (i.render t).toList ++ '\n' :: '\t' :: linesText t insts term

theorem toList_render (t : LocalTable) (b : Block) :
    (b.render t).toList = (t.ident b.label).label.toList ++ '\n' :: '\t' :: linesText t b.insts b.term := by
  -- each instruction is printed after a line feed and a tab, and so is the terminator
  have hlines : ∀ insts : List Instruction,
      (String.join (insts.map fun i => "\n\t" ++ i.render t)).toList ++ '\n' :: '\t' ::
        (b.term.render t).toList = '\n' :: '\t' :: linesText t insts b.term := by
    intro insts
    induction insts with
    | nil => rfl
    | cons i rest ih =>
      rw [List.map_cons, String.join_cons, String.toList_append, List.append_assoc, ih]
      simp [linesText]
  rw [Block.render, String.toList_append, String.toList_append, String.toList_append, List.append_assoc,
    List.append_assoc, ← hlines]
  rfl

variable {t : LocalTable} {fuel : Nat}

/-- The lines of a block open with `%` or an opcode. -/
theorem linesText_head (t : LocalTable) (insts : List Instruction) (term : Terminator)
    (r : List Char) :
    NoBlankAhead (linesText t insts term ++ r) ∧ (linesText t insts term ++ r).head? ≠ some ',' := by
  cases insts with
  | nil =>
    obtain ⟨ch, hhead, hch⟩ := term.opcode_head (term.operandsText t)
    rw [linesText, Terminator.render_eq, String.toList_append, List.append_assoc]
    exact resultText_head t _ (by rw [List.head?_append, hhead]; rfl) hch
  | cons i insts =>
    obtain ⟨hne, hw⟩ := i.kind.opcode_word
    obtain ⟨x, xs, hx⟩ := List.exists_cons_of_ne_nil hne
    rw [linesText, Instruction.render_eq, String.toList_append, List.append_assoc, List.append_assoc]
    exact resultText_head t _ (by simp [hx]) (hw x (by simp [hx]))

theorem length_linesText_pos (insts : List Instruction) (term : Terminator) :
    0 < (linesText t insts term).length := by
  cases insts with
  | nil =>
    obtain ⟨ch, hhead, -⟩ := term.opcode_head (term.operandsText t)
    have hpos := List.length_pos_of_mem (List.mem_of_mem_head? hhead)
    rw [linesText, Terminator.render_eq, String.toList_append, List.length_append]
    omega
  | cons i insts => simp [linesText]

/-- **The lines of a block read back**: `blockRest` reads them one at a time, collecting the
written form of each instruction, up to the terminator that ends the block. -/
theorem readsAt_lines (ht : t.NumbersFit) {term : Terminator} (hterm : term.Rereads)
    (label : Option LocalName) {insts : List Instruction} (hinsts : ∀ i ∈ insts, i.kind.Rereads)
    (hf : 2 * (linesText t insts term).length < fuel) :
    ∀ (steps : Nat) (acc : List Ast.Instruction), (linesText t insts term).length < steps →
      ReadsAt (blockRest fuel label steps acc) (linesText t insts term) AtLineEnd
        ⟨label, acc.reverse ++ insts.map (·.toAst t), term.toAst t⟩ := by
  induction insts with
  | nil =>
    intro steps acc hsteps
    obtain ⟨s, rfl⟩ : ∃ s, steps = s + 1 := ⟨steps - 1, by omega⟩
    simp only [linesText, String.length_toList] at hf hsteps ⊢
    rw [List.map_nil, List.append_nil]
    exact Terminator.readsAt_blockRest ht hterm hf
      (fun c hc => by have := Terminator.args_length_lt (t := t) hc; omega) label acc
  | cons i insts ih =>
    intro steps acc hsteps
    have hlen : (linesText t (i :: insts) term).length =
        (i.render t).length + 2 + (linesText t insts term).length := by
      simp only [linesText, List.length_append, List.length_cons, String.length_toList]
      omega
    have hpos := length_linesText_pos (t := t) insts term
    obtain ⟨s, rfl⟩ : ∃ s, steps = s + 1 := ⟨steps - 1, by omega⟩
    obtain ⟨s', rfl⟩ : ∃ s', s = s' + 1 := ⟨s - 1, by omega⟩
    have hrest := ih (fun j hj => hinsts j (List.mem_cons_of_mem i hj)) (by omega) (s' + 1)
      (i.toAst t :: acc) (by omega)
    have hblock : (i.toAst t :: acc).reverse ++ insts.map (·.toAst t) =
        acc.reverse ++ (i :: insts).map (·.toAst t) := by
      simp
    rw [hblock] at hrest
    exact Instruction.readsAt_blockRest ht (hinsts i List.mem_cons_self) (by omega) (by omega) label
      acc (linesText_head t insts term) (skipsBlanks_blockRest fuel label s' _) hrest

end Block

end LlvmAsm
