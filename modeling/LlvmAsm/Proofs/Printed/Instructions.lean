import LlvmAsm.Proofs.Printed.Operands

/-!
# `Proofs.Printed.Instructions` — reading printed instructions back

An instruction is printed as its opcode and its operands (`InstKind.opcode`,
`InstKind.operandsText`), after `%x = ` when numbering visits its result. Reading the operands
after the opcode gives the written form of what the instruction does (`InstKind.readsAt_parseInstKind`)
when its operands and the types it shows read back and a phi has an incoming pair
(`InstKind.Rereads`).

The text of an instruction ends its line, so the last type or operand it shows is read where a
line feed follows (`AtLineEnd`).
-/

namespace LlvmAsm

open Ast Reader

namespace Ast.Reader

/-- Text that starts a new line, or no text: skipping blanks on the line stops there. -/
def AtLineEnd (r : List Char) : Prop := ∀ ch ∈ r.head?, ch = '\n'

theorem skipBlanks_false_of_atLineEnd {c : Cursor} (h : AtLineEnd c.rest) : c.skipBlanks false = c := by
  obtain ⟨rest, pos⟩ := c
  cases rest with
  | nil => rfl
  | cons ch r =>
    obtain rfl : ch = '\n' := h ch rfl
    rfl

theorem stopsSuffixes_of_atLineEnd {r : List Char} (h : AtLineEnd r) : stopsSuffixes r := by
  cases r with
  | nil => rfl
  | cons ch r =>
    obtain rfl : ch = '\n' := h ch rfl
    rfl

/-- A type read where its line ends. -/
theorem readsAt_parseType_eol {t : Ty} (h : ReadsBack t) {fuel : Nat} (hf : t.readDepth + 1 ≤ fuel) :
    ReadsAt (parseType fuel) t.render.toList AtLineEnd t := by
  intro c r hc hr
  have hafter : (c.advance t.render.length).rest = r := by
    rw [← String.length_toList]
    exact Cursor.rest_advance_append _ hc
  rw [h.run_eq_ok hf hc (fun ch hch => by rw [hr ch hch]; exact Ty.continuesWith_eq_false rfl rfl)
      (stopsSuffixes_of_atLineEnd hr),
    skipBlanks_false_of_atLineEnd (by rw [hafter]; exact hr), String.length_toList]

/-- A line feed ends a constant. -/
theorem stopsConst_of_atLineEnd {r : List Char} (h : AtLineEnd r) : StopsConst r := by
  intro ch hch
  rw [h ch hch]
  decide

/-- Skipping blanks across lines at a blank moves past it and goes on. -/
theorem skipBlanks_blank {c : Cursor} {ch : Char} {r : List Char} (hc : c.rest = ch :: r)
    (hb : Cursor.isBlank ch = true) : c.skipBlanks true = (c.advance 1).skipBlanks true := by
  have hfacts : ch ≠ ';' ∧ ch.utf8Size = 1 := by
    simp only [Cursor.isBlank, Bool.or_eq_true, decide_eq_true_eq] at hb
    rcases hb with (((rfl | rfl) | rfl) | rfl) | rfl <;> exact ⟨by decide, rfl⟩
  have hnext : c.advance 1 = ⟨r, c.pos + 1⟩ := by
    rw [Cursor.advance, Cursor.advance, Cursor.next, hc]
    dsimp only
    rw [hfacts.2]
  rw [Cursor.skipBlanks, hc, hnext, Cursor.skipBlanks, Cursor.skipBlanksFrom, if_neg Bool.false_ne_true,
    if_neg hfacts.1, if_pos hb]
  simp

/-- A reader that skips blanks first reads its text after any blank too. -/
theorem ReadsAt.blank {α : Type} {x : Reader α} {t : List Char} {F : List Char → Prop} {a : α}
    {ch : Char} (hb : Cursor.isBlank ch = true) (hskip : SkipsBlanks x) (h : ReadsAt x t F a) :
    ReadsAt x (ch :: t) F a := by
  intro c r hc hr
  have h1 : (c.advance 1).rest = t ++ r := Cursor.rest_advance_append [ch] (by rw [hc]; rfl)
  rw [← hskip c, skipBlanks_blank hc hb, hskip, h _ r h1 hr, Cursor.advance_advance,
    List.length_cons, Nat.add_comm]

/-- A word other than `w` stands next: trying `w` reads nothing. -/
theorem readsAt_tryWord_other {w : String} :
    ReadsAt (tryWord w) [] (fun r => NoBlankAhead r ∧ r.takeWhile isWordChar ≠ w.toList) false := by
  intro c r hc hr
  have hskip := skipBlanks_of_noBlankAhead (by rw [hc]; exact hr.1) true
  have hpeek : peekWord.run c = .ok (if (r.takeWhile isWordChar).isEmpty then none
      else some (String.ofList (r.takeWhile isWordChar)), c) := by
    simp only [peekWord, wordAt]
    rw [run_bind_ok (run_skipBlanks _ _), hskip, run_bind_ok (run_get c), hc]
    rfl
  have hne : (if (r.takeWhile isWordChar).isEmpty then none
      else some (String.ofList (r.takeWhile isWordChar))) ≠ some w := by
    split
    · exact fun h => by cases h
    · intro h
      apply hr.2
      rw [← Option.some.inj h, String.toList_ofList]
  simp only [tryWord]
  rw [run_bind_ok hpeek, if_neg hne]
  rfl

/-- A word opened by another character is not `w`. -/
theorem takeWhile_ne_of_head {ch a : Char} {r ws : List Char} (h : ch ≠ a) :
    (ch :: r).takeWhile isWordChar ≠ a :: ws := by
  rw [List.takeWhile_cons]
  split
  · intro heq
    exact h (List.cons.inj heq).1
  · exact fun heq => by cases heq

/-- None of the flag words stands next. -/
def NoFlagAhead (r : List Char) : Prop :=
  NoBlankAhead r ∧ r.takeWhile isWordChar ≠ "nuw".toList ∧ r.takeWhile isWordChar ≠ "nsw".toList ∧
    r.takeWhile isWordChar ≠ "exact".toList

theorem readsAt_tryFlag_other : ReadsAt tryFlag [] NoFlagAhead false :=
  ReadsAt.bind (readsAt_tryWord_other.mono fun _ h => ⟨h.1, h.2.1⟩)
    (ReadsAt.bind (readsAt_tryWord_other.mono fun _ h => ⟨h.1, h.2.2.1⟩)
      (readsAt_tryWord_other.mono fun _ h => ⟨h.1, h.2.2.2⟩) fun _ h => h) fun _ h => h

/-- No flag stands where a type opens. -/
theorem noFlagAhead_type (ty : Ty) (tail : List Char) : NoFlagAhead (ty.render.toList ++ tail) := by
  obtain ⟨ch, hopen, hch⟩ := Ty.render_head ty
  obtain ⟨tl, htl⟩ := List.head?_eq_some_iff.mp hch
  have hfacts := forall_mem_of_all
    (p := fun x => Cursor.isBlank x = false ∧ x ≠ ';' ∧ x ≠ 'n' ∧ x ≠ 'e') (l := Ty.openers)
    (by decide) ch hopen
  rw [htl, List.cons_append]
  exact ⟨fun x hx => by cases hx; exact ⟨hfacts.1, hfacts.2.1⟩,
    takeWhile_ne_of_head hfacts.2.2.1, takeWhile_ne_of_head hfacts.2.2.1,
    takeWhile_ne_of_head hfacts.2.2.2⟩

/-- The flags of a binary instruction, where none is written: the space before its first type. -/
theorem readsAt_skipFlags_other (f : Nat) : ReadsAt (skipFlags (f + 1)) [' '] NoFlagAhead () := by
  rw [skipFlags]
  exact ReadsAt.bind (readsAt_tryFlag_other.space skipsBlanks_tryFlag) (ReadsAt.pure ()) fun _ h => h

theorem skipsBlanks_readWord : SkipsBlanks readWord := by
  simp only [readWord, peekWord]
  rw [bind_assoc]
  exact skipsBlanks_skip_bind _

theorem skipsBlanks_parseValue (f : Nat) : SkipsBlanks (parseValue f) := by
  unfold parseValue
  exact skipsBlanks_skip_bind _

end Ast.Reader

namespace InstKind

/-- The word an instruction's text opens with. -/
def opcode : InstKind → String
  | .binary op _ _ => Keyword.keyword op
  | .icmp .. => "icmp"
  | .alloca _ => "alloca"
  | .load .. => "load"
  | .store .. => "store"
  | .phi .. => "phi"
  | .call _ => "call"

/-- The text of an incoming pair of a phi. -/
def phiPairText (t : LocalTable) (pair : Value × Nat) : String :=
  "[ " ++ pair.1.render t ++ ", " ++ (t.ident pair.2).render ++ " ]"

/-- The text of an instruction after its opcode. -/
def operandsText (t : LocalTable) : InstKind → String
  | .binary _ l r => " " ++ l.renderTyped t ++ ", " ++ r.render t
  | .icmp pred l r => " " ++ Keyword.keyword pred ++ " " ++ l.renderTyped t ++ ", " ++ r.render t
  | .alloca elem => " " ++ elem.render
  | .load ty ptr => " " ++ ty.render ++ ", " ++ ptr.renderTyped t
  | .store v ptr => " " ++ v.renderTyped t ++ ", " ++ ptr.renderTyped t
  | .phi ty incoming => " " ++ ty.render ++ " " ++ ", ".intercalate (incoming.map (phiPairText t))
  | .call c => " " ++ c.render t

/-- The types an instruction shows besides those of its operands. -/
def shownTypes : InstKind → List Ty
  | .alloca elem => [elem]
  | .load ty _ => [ty]
  | .phi ty _ => [ty]
  | .call c => [c.shownTy]
  | _ => []

/-- **What an instruction needs for its text to read back**: its operands and the types it
shows read back, and a phi has an incoming pair. -/
structure Rereads (k : InstKind) : Prop where
  values : ∀ v ∈ k.values, v.Readable ∧ v.ty.fits
  shown : ∀ ty ∈ k.shownTypes, ty.fits
  incoming : ∀ ty incoming, k = .phi ty incoming → incoming ≠ []

variable {t : LocalTable} {fuel steps : Nat}

theorem readsAt_binary (ht : t.NumbersFit) {op : BinaryOp} {l r : Value}
    (hk : (InstKind.binary op l r).Rereads)
    (hf : 2 * ((InstKind.binary op l r).operandsText t).length < fuel) (hsteps : 1 ≤ steps) :
    ReadsAt (parseInstKind fuel steps (Keyword.keyword op))
      ((InstKind.binary op l r).operandsText t).toList AtLineEnd
      ((InstKind.binary op l r).toAst t) := by
  obtain ⟨s, rfl⟩ : ∃ s, steps = s + 1 := ⟨steps - 1, by omega⟩
  obtain ⟨hl, hlty⟩ := hk.values l (by simp [values])
  have hr := (hk.values r (by simp [values])).1
  have htext : ((InstKind.binary op l r).operandsText t).toList =
      [' '] ++ ((l.renderTyped t).toList ++ ([','] ++ (' ' :: (r.render t).toList))) := by
    simp [operandsText]
  have hlen := congrArg List.length htext
  simp only [String.length_toList, List.length_append, List.length_cons, List.length_nil] at hlen
  have hfl : 2 * (l.renderTyped t).length < fuel := by omega
  have hfr : 2 * (r.render t).length < fuel := by omega
  unfold parseInstKind
  rw [ofKeyword?_keyword_binary, htext]
  exact ReadsAt.bind (readsAt_skipFlags_other s)
    (ReadsAt.bind (Value.readsAt_parseTypedValue ht hl hlty hfl)
      (ReadsAt.bind (readsAt_expect (F := fun _ => True) (by decide) (by decide))
        (ReadsAt.bind_pure (((Value.readsAt_parseValue ht hr hfr).mono
          fun _ h => stopsConst_of_atLineEnd h).space (skipsBlanks_parseValue fuel)))
        fun _ _ => trivial)
      fun _ _ x hx => by cases hx; decide)
    fun _ _ => by
      simp only [Value.toList_renderTyped, List.append_assoc, List.cons_append]
      exact noFlagAhead_type _ _

theorem ofKeyword?_keyword_pred (pred : IntPredicate) :
    (Keyword.ofKeyword? (Keyword.keyword pred) : Option IntPredicate) = some pred := by
  cases pred <;> rfl

theorem predKeyword_facts (pred : IntPredicate) : (Keyword.keyword pred).toList ≠ [] ∧
    ∀ x ∈ (Keyword.keyword pred).toList, isWordChar x := by
  cases pred <;> exact ⟨by decide, forall_mem_of_all (by decide)⟩

theorem readsAt_icmp (ht : t.NumbersFit) {pred : IntPredicate} {l r : Value}
    (hk : (InstKind.icmp pred l r).Rereads)
    (hf : 2 * ((InstKind.icmp pred l r).operandsText t).length < fuel) :
    ReadsAt (parseInstKind fuel steps "icmp")
      ((InstKind.icmp pred l r).operandsText t).toList AtLineEnd
      ((InstKind.icmp pred l r).toAst t) := by
  obtain ⟨hl, hlty⟩ := hk.values l (by simp [values])
  have hr := (hk.values r (by simp [values])).1
  obtain ⟨hne, hword⟩ := predKeyword_facts pred
  have htext : ((InstKind.icmp pred l r).operandsText t).toList =
      (' ' :: (Keyword.keyword pred).toList) ++ ((' ' :: (l.renderTyped t).toList) ++
        ([','] ++ (' ' :: (r.render t).toList))) := by
    simp [operandsText]
  have hlen := congrArg List.length htext
  simp only [String.length_toList, List.length_append, List.length_cons, List.length_nil] at hlen
  have hfl : 2 * (l.renderTyped t).length < fuel := by omega
  have hfr : 2 * (r.render t).length < fuel := by omega
  obtain ⟨F, rfl⟩ : ∃ F, fuel = F + 1 := ⟨fuel - 1, by omega⟩
  unfold parseInstKind
  rw [show (Keyword.ofKeyword? "icmp" : Option BinaryOp) = none from rfl, htext]
  refine ReadsAt.bind ((readsAt_readWord hne hword).space skipsBlanks_readWord) ?_
    fun _ _ x hx => by cases hx; decide
  rw [String.ofList_toList, ofKeyword?_keyword_pred]
  exact ReadsAt.bind ((Value.readsAt_parseTypedValue ht hl hlty hfl).space
      (skipsBlanks_parseTypedValue F))
    (ReadsAt.bind (readsAt_expect (F := fun _ => True) (by decide) (by decide))
      (ReadsAt.bind_pure (((Value.readsAt_parseValue ht hr hfr).mono
        fun _ h => stopsConst_of_atLineEnd h).space (skipsBlanks_parseValue (F + 1))))
      fun _ _ => trivial)
    fun _ _ x hx => by cases hx; decide

theorem readsAt_alloca {elem : Ty} (hk : (InstKind.alloca elem).Rereads)
    (hf : 2 * ((InstKind.alloca elem).operandsText t).length < fuel) :
    ReadsAt (parseInstKind fuel steps "alloca")
      ((InstKind.alloca elem).operandsText t).toList AtLineEnd
      ((InstKind.alloca elem).toAst t) := by
  have hfits := hk.shown elem (by simp [shownTypes])
  have htext : ((InstKind.alloca elem).operandsText t).toList = ' ' :: elem.render.toList := by
    simp [operandsText]
  have hlen := congrArg List.length htext
  simp only [String.length_toList, List.length_cons] at hlen
  have hdepth := Ty.readDepth_le_length_toList elem
  rw [String.length_toList] at hdepth
  obtain ⟨F, rfl⟩ : ∃ F, fuel = F + 1 := ⟨fuel - 1, by omega⟩
  unfold parseInstKind
  rw [show (Keyword.ofKeyword? "alloca" : Option BinaryOp) = none from rfl, htext]
  exact ReadsAt.bind_pure ((readsAt_parseType_eol (readsBack_of_fits _ hfits) (by omega)).space
    (skipsBlanks_parseType F))

theorem readsAt_load (ht : t.NumbersFit) {ty : Ty} {ptr : Value}
    (hk : (InstKind.load ty ptr).Rereads)
    (hf : 2 * ((InstKind.load ty ptr).operandsText t).length < fuel) :
    ReadsAt (parseInstKind fuel steps "load")
      ((InstKind.load ty ptr).operandsText t).toList AtLineEnd
      ((InstKind.load ty ptr).toAst t) := by
  have hfits := hk.shown ty (by simp [shownTypes])
  obtain ⟨hp, hpty⟩ := hk.values ptr (by simp [values])
  have htext : ((InstKind.load ty ptr).operandsText t).toList =
      (' ' :: ty.render.toList) ++ ([','] ++ (' ' :: (ptr.renderTyped t).toList)) := by
    simp [operandsText]
  have hlen := congrArg List.length htext
  simp only [String.length_toList, List.length_append, List.length_cons, List.length_nil] at hlen
  have hdepth := Ty.readDepth_le_length_toList ty
  rw [String.length_toList] at hdepth
  have hfp : 2 * (ptr.renderTyped t).length < fuel := by omega
  obtain ⟨F, rfl⟩ : ∃ F, fuel = F + 1 := ⟨fuel - 1, by omega⟩
  unfold parseInstKind
  rw [show (Keyword.ofKeyword? "load" : Option BinaryOp) = none from rfl, htext]
  exact ReadsAt.bind ((readsAt_parseType (readsBack_of_fits _ hfits) (by omega)).space
      (skipsBlanks_parseType F))
    (ReadsAt.bind (readsAt_expect (F := fun _ => True) (by decide) (by decide))
      (ReadsAt.bind_pure (((Value.readsAt_parseTypedValue ht hp hpty hfp).mono
        fun _ h => stopsConst_of_atLineEnd h).space (skipsBlanks_parseTypedValue F)))
      fun _ _ => trivial)
    fun _ _ => ⟨fun x hx => by cases hx; exact Ty.continuesWith_eq_false rfl rfl,
      stopsSuffixes_cons (by decide) (by decide) (by decide) (by decide) (by decide),
      fun x hx => by cases hx; decide⟩

theorem readsAt_store (ht : t.NumbersFit) {v ptr : Value}
    (hk : (InstKind.store v ptr).Rereads)
    (hf : 2 * ((InstKind.store v ptr).operandsText t).length < fuel) :
    ReadsAt (parseInstKind fuel steps "store")
      ((InstKind.store v ptr).operandsText t).toList AtLineEnd
      ((InstKind.store v ptr).toAst t) := by
  obtain ⟨hv, hvty⟩ := hk.values v (by simp [values])
  obtain ⟨hp, hpty⟩ := hk.values ptr (by simp [values])
  have htext : ((InstKind.store v ptr).operandsText t).toList =
      (' ' :: (v.renderTyped t).toList) ++ ([','] ++ (' ' :: (ptr.renderTyped t).toList)) := by
    simp [operandsText]
  have hlen := congrArg List.length htext
  simp only [String.length_toList, List.length_append, List.length_cons, List.length_nil] at hlen
  have hfv : 2 * (v.renderTyped t).length < fuel := by omega
  have hfp : 2 * (ptr.renderTyped t).length < fuel := by omega
  obtain ⟨F, rfl⟩ : ∃ F, fuel = F + 1 := ⟨fuel - 1, by omega⟩
  unfold parseInstKind
  rw [show (Keyword.ofKeyword? "store" : Option BinaryOp) = none from rfl, htext]
  exact ReadsAt.bind ((Value.readsAt_parseTypedValue ht hv hvty hfv).space
      (skipsBlanks_parseTypedValue F))
    (ReadsAt.bind (readsAt_expect (F := fun _ => True) (by decide) (by decide))
      (ReadsAt.bind_pure (((Value.readsAt_parseTypedValue ht hp hpty hfp).mono
        fun _ h => stopsConst_of_atLineEnd h).space (skipsBlanks_parseTypedValue F)))
      fun _ _ => trivial)
    fun _ _ x hx => by cases hx; decide

theorem readsAt_call (ht : t.NumbersFit) {c : Call} (hk : (InstKind.call c).Rereads)
    (hf : 2 * ((InstKind.call c).operandsText t).length < fuel)
    (hsteps : c.args.length ≤ steps) :
    ReadsAt (parseInstKind fuel steps "call")
      ((InstKind.call c).operandsText t).toList AtLineEnd
      ((InstKind.call c).toAst t) := by
  have hcallee := (hk.values c.callee (by simp [values, Call.values])).1
  have hargs : ∀ a ∈ c.args, a.Readable ∧ a.ty.fits := fun a ha =>
    hk.values a (by simp [values, Call.values, ha])
  have hshown := hk.shown c.shownTy (by simp [shownTypes])
  have htext : ((InstKind.call c).operandsText t).toList = ' ' :: (c.render t).toList := by
    simp [operandsText]
  have hlen := congrArg List.length htext
  simp only [String.length_toList, List.length_cons] at hlen
  obtain ⟨F, rfl⟩ : ∃ F, fuel = F + 1 := ⟨fuel - 1, by omega⟩
  have hskip : SkipsBlanks (parseCall (F + 1) steps) := by
    unfold parseCall
    exact (skipsBlanks_parseType F).bind _
  unfold parseInstKind
  rw [show (Keyword.ofKeyword? "call" : Option BinaryOp) = none from rfl, htext]
  exact ReadsAt.bind_pure (((Call.readsAt_parseCall ht hcallee hargs hshown (by omega) hsteps).mono
    fun _ _ => trivial).space hskip)

theorem toList_phiPairText (t : LocalTable) (pair : Value × Nat) :
    (phiPairText t pair).toList = ['['] ++ ((' ' :: (pair.1.render t).toList) ++ ([','] ++
      ((' ' :: (t.ident pair.2).render.toList) ++ [' ', ']']))) := by
  simp [phiPairText]

theorem skipsBlanks_phiIncoming (f s : Nat) : SkipsBlanks (phiIncoming f (s + 1)) := by
  rw [phiIncoming]
  exact (skipsBlanks_expect '[').bind _

/-- The incoming pairs of a phi, separated by `, `; the blanks after the last are skipped looking
for another `,`. -/
theorem readsAt_phiIncoming (ht : t.NumbersFit) {incoming : List (Value × Nat)}
    (hv : ∀ p ∈ incoming, p.1.Readable ∧ 2 * (p.1.render t).length < fuel) :
    incoming ≠ [] → ∀ {steps : Nat}, incoming.length ≤ steps →
      ReadsAt (phiIncoming fuel steps)
        ((", ".intercalate (incoming.map (phiPairText t))).toList ++ ['\n', '\t'])
        (fun r => NoBlankAhead r ∧ r.head? ≠ some ',')
        (incoming.map fun pair => (pair.1.toAst t, t.name pair.2)) := by
  induction incoming with
  | nil => exact fun h => absurd rfl h
  | cons p rest ih =>
    intro _ steps hsteps
    obtain ⟨s, rfl⟩ : ∃ s, steps = s + 1 := ⟨steps - 1, by simp at hsteps; omega⟩
    obtain ⟨hp, hfp⟩ := hv p List.mem_cons_self
    obtain ⟨F, rfl⟩ : ∃ F, fuel = F + 1 := ⟨fuel - 1, by omega⟩
    -- `[`, the value, `,`, the block and `]`
    have hpair : ∀ {β : Type} {k : Ast.Value → Ast.LocalName → Reader β} {text : List Char}
        {G : List Char → Prop} {b : β}, ReadsAt (k (p.1.toAst t) (t.name p.2)) text G b →
        ReadsAt (do
            expect '['
            let v ← parseValue (F + 1)
            expect ','
            let b ← readLocal
            expect ']'
            k v b) ((phiPairText t p).toList ++ text) G b := by
      intro β k text G b hk
      rw [toList_phiPairText]
      refine ReadsAt.of_text_eq (ReadsAt.bind (readsAt_expect (F := fun _ => True) (by decide)
        (by decide)) (ReadsAt.bind ((Value.readsAt_parseValue ht hp hfp).space
          (skipsBlanks_parseValue _)) (ReadsAt.bind (readsAt_expect (F := fun _ => True)
            (by decide) (by decide)) (ReadsAt.bind ((readsAt_readLocal (ht p.2)).space
              skipsBlanks_readLocal) (ReadsAt.bind ((readsAt_expect (F := fun _ => True)
                (by decide) (by decide)).space (skipsBlanks_expect ']')) hk
                fun _ _ => trivial) fun _ _ x hx => by cases hx; decide)
            fun _ _ => trivial) fun _ _ x hx => by cases hx; decide) fun _ _ => trivial)
        (by simp)
    rw [phiIncoming]
    cases rest with
    | nil =>
      -- the last pair: no `,` after the blanks that follow it
      refine ReadsAt.of_text_eq (hpair (k := fun v b => do
          if ← tryChar ',' then return (v, b) :: (← phiIncoming (F + 1) s)
          return [(v, b)])
        (ReadsAt.bind (((readsAt_tryChar_miss : ReadsAt (tryChar ',') [] _ false).blank
        (by decide : Cursor.isBlank '\t' = true) (skipsBlanks_tryChar ',')).blank
          (by decide : Cursor.isBlank '\n' = true) (skipsBlanks_tryChar ','))
        (ReadsAt.pure _) fun _ h => h)) (by simp)
    | cons p' rest' =>
      have hrest := ih (fun x hx => hv x (List.mem_cons_of_mem p hx)) (List.cons_ne_nil p' rest')
        (show (p' :: rest').length ≤ s by simp only [List.length_cons] at hsteps ⊢; omega)
      obtain ⟨s', rfl⟩ : ∃ s', s = s' + 1 := ⟨s - 1, by simp only [List.length_cons] at hsteps; omega⟩
      refine ReadsAt.of_text_eq (hpair (k := fun v b => do
          if ← tryChar ',' then return (v, b) :: (← phiIncoming (F + 1) (s' + 1))
          return [(v, b)])
        (ReadsAt.bind (readsAt_tryChar_hit (F := fun _ => True)
        (by decide) (by decide)) (ReadsAt.bind_pure (hrest.space (skipsBlanks_phiIncoming _ s')))
        fun _ _ => trivial)) (by simp)

/-- A phi: its type and its incoming pairs; the blanks after them are skipped looking for
another `,`. -/
theorem readsAt_phi (ht : t.NumbersFit) {ty : Ty} {incoming : List (Value × Nat)}
    (hk : (InstKind.phi ty incoming).Rereads)
    (hf : 2 * ((InstKind.phi ty incoming).operandsText t).length < fuel)
    (hsteps : incoming.length ≤ steps) :
    ReadsAt (parseInstKind fuel steps "phi")
      (((InstKind.phi ty incoming).operandsText t).toList ++ ['\n', '\t'])
      (fun r => NoBlankAhead r ∧ r.head? ≠ some ',')
      ((InstKind.phi ty incoming).toAst t) := by
  have hfits := hk.shown ty (by simp [shownTypes])
  have hne := hk.incoming ty incoming rfl
  have htext : ((InstKind.phi ty incoming).operandsText t).toList ++ ['\n', '\t'] =
      (' ' :: (ty.render.toList ++ [' '])) ++
        ((", ".intercalate (incoming.map (phiPairText t))).toList ++ ['\n', '\t']) := by
    simp [operandsText]
  have hlen := congrArg List.length htext
  simp only [String.length_toList, List.length_append, List.length_cons, List.length_nil] at hlen
  have hdepth := Ty.readDepth_le_length_toList ty
  rw [String.length_toList] at hdepth
  have hv : ∀ p ∈ incoming, p.1.Readable ∧ 2 * (p.1.render t).length < fuel := by
    intro p hp
    refine ⟨(hk.values p.1 (by simp only [values]; exact List.mem_map_of_mem hp)).1, ?_⟩
    have hpair := length_le_intercalate ", " (List.mem_map_of_mem hp (f := phiPairText t))
    have hlenp := congrArg List.length (toList_phiPairText t p)
    simp only [String.length_toList, List.length_append, List.length_cons, List.length_nil] at hlenp
    omega
  obtain ⟨F, rfl⟩ : ∃ F, fuel = F + 1 := ⟨fuel - 1, by omega⟩
  -- the pairs open with `[`, which stops the type
  have hopen : ∀ r, stopsSuffixes ((", ".intercalate (incoming.map (phiPairText t))).toList ++
      ['\n', '\t'] ++ r) ∧ NoBlankAhead ((", ".intercalate (incoming.map (phiPairText t))).toList ++
      ['\n', '\t'] ++ r) := by
    intro r
    obtain ⟨p, rest, rfl⟩ := List.exists_cons_of_ne_nil hne
    have hhead : ∃ tl, (", ".intercalate ((p :: rest).map (phiPairText t))).toList ++ ['\n', '\t'] ++
        r = '[' :: tl := by
      cases rest <;> simp [toList_phiPairText]
    obtain ⟨tl, htl⟩ := hhead
    rw [htl]
    exact ⟨stopsSuffixes_cons (by decide) (by decide) (by decide) (by decide) (by decide),
      fun x hx => by cases hx; decide⟩
  unfold parseInstKind
  rw [show (Keyword.ofKeyword? "phi" : Option BinaryOp) = none from rfl, htext]
  exact ReadsAt.bind ((readsAt_parseType_space (readsBack_of_fits _ hfits) (by omega)).space
      (skipsBlanks_parseType F))
    (ReadsAt.bind_pure (readsAt_phiIncoming ht hv hne hsteps)) fun r _ => hopen r

end InstKind

end LlvmAsm
