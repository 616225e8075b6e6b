import LlvmAsm.Proofs.Printed.Blocks
import LlvmAsm.Proofs.Reading.Labels

/-!
# `Proofs.Printed.Body` — reading printed bodies back

A body is printed between braces: its blocks, each after a line feed and followed by one, then,
after one more line feed, its use-list orders, each after a tab and followed by a line feed
(`Function.toList_renderBody`).

`bodyItems` skips the blanks before each item and reads a use-list order when the item opens with
the word `uselistorder`, a block otherwise. A block's label opens with no blank and no `}`, so the
block is read from it, and it is not taken for a use-list order when its leading word is another
(`Block.Rereads`). The loop is read by induction over the blocks (`readsAt_bodyItems_blocks`) and
then over the use-list orders (`readsAt_bodyItems_uses`).
-/

namespace LlvmAsm

open Ast Reader

namespace Ast.Reader

/-- A written name opens with a quote or a name-start character: no blank, `;` or `}`. -/
theorem ident_head_facts (name : String) : ∃ ch cs, (Text.ident name).toList = ch :: cs ∧
    Cursor.isBlank ch = false ∧ ch ≠ ';' ∧ ch ≠ '}' := by
  obtain ⟨ch, cs, hlist, -, hquote⟩ := ident_head name
  refine ⟨ch, cs, hlist, ?_⟩
  by_cases hb : Text.isBare name
  · obtain ⟨c, cs', hname, hstart, -⟩ := Text.isBare_toList hb
    have hident : Text.ident name = name := if_pos hb
    rw [hident, hname] at hlist
    obtain rfl := (List.cons.inj hlist).1
    -- none of these characters starts a bare name
    have hnot : ∀ x : Char, (Cursor.isBlank x = true ∨ x = ';' ∨ x = '}') →
        Text.isNameStart (Text.asciiByte x) = false := by
      intro x hx
      simp only [Cursor.isBlank, Bool.or_eq_true, decide_eq_true_eq] at hx
      rcases hx with ((((rfl | rfl) | rfl) | rfl) | rfl) | rfl | rfl <;> decide
    refine ⟨Bool.eq_false_iff.mpr fun h => ?_, fun h => ?_, fun h => ?_⟩
    · rw [hnot c (Or.inl h)] at hstart
      exact Bool.false_ne_true hstart
    · rw [hnot c (Or.inr (Or.inl h))] at hstart
      exact Bool.false_ne_true hstart
    · rw [hnot c (Or.inr (Or.inr h))] at hstart
      exact Bool.false_ne_true hstart
  · rw [hquote (Bool.eq_false_iff.mpr hb)]
    decide

/-- A block's label opens with no blank, `;` or `}`. -/
theorem label_head (i : LocalIdent) : ∃ ch cs, i.label.toList = ch :: cs ∧
    Cursor.isBlank ch = false ∧ ch ≠ ';' ∧ ch ≠ '}' := by
  cases i with
  | named n =>
    obtain ⟨ch, cs, h, hfacts⟩ := ident_head_facts n
    exact ⟨ch, cs ++ [':'], by rw [toList_label_named, h]; rfl, hfacts⟩
  | anon id =>
    obtain ⟨d, ds, hd⟩ := List.exists_cons_of_ne_nil (toList_toString_ne_nil id)
    have hdigit := isDigitChar_of_toString d (by rw [hd]; exact List.mem_cons_self)
    refine ⟨d, ds ++ [':'], by rw [toList_label_anon, hd]; rfl, ?_, ?_, ?_⟩
    · simp only [Cursor.isBlank, Bool.or_eq_false_iff, decide_eq_false_iff_not]
      refine ⟨⟨⟨⟨?_, ?_⟩, ?_⟩, ?_⟩, ?_⟩ <;> (rintro rfl; exact absurd hdigit (by decide))
    · rintro rfl
      exact absurd hdigit (by decide)
    · rintro rfl
      exact absurd hdigit (by decide)

/-- A written label is read back as the block's name, or its number. -/
theorem readsAt_tryLabel {i : LocalIdent} (hid : ∀ id, i = .anon id → id < bound32) :
    ReadsAt tryLabel i.label.toList (fun _ => True) (some i.toName) := by
  intro c r hc _
  obtain ⟨ch, cs, hl, hb, hs, -⟩ := label_head i
  have hskip : c.skipBlanks true = c :=
    Cursor.skipBlanks_of_head (by rw [hc, hl]; rfl) hb hs true
  cases i with
  | named n =>
    rw [run_tryLabel_named (by rw [hskip]; exact hc), hskip, String.length_toList]
    rfl
  | anon id =>
    rw [run_tryLabel_anon (hid id rfl) (by rw [hskip]; exact hc), hskip, String.length_toList]
    rfl

theorem readsAt_readNumber {n bound : Nat} (hn : n < bound) :
    ReadsAt (readNumber bound) (toString n).toList (fun r => ∀ x ∈ r.head?, isDigitChar x = false) n :=
  fun _ _ hc hr => by rw [run_readNumber_at hc hr hn, String.length_toList]

theorem skipsBlanks_readNumber (bound : Nat) : SkipsBlanks (readNumber bound) := by
  unfold readNumber
  exact skipsBlanks_skip_bind _

theorem skipsBlanks_useListIndices (s : Nat) : SkipsBlanks (useListIndices (s + 1)) := by
  rw [useListIndices]
  exact (skipsBlanks_readNumber _).bind _

theorem skipsBlanks_bodyItems (f s : Nat) (bs : List Block) (us : List UseListOrder) :
    SkipsBlanks (bodyItems f (s + 1) bs us) := by
  rw [bodyItems]
  exact skipsBlanks_skip_bind _

end Ast.Reader

namespace UseListOrder

/-- **What a use-list order needs for its text to read back**: its operand reads back, and it
lists at least one index, each below `2 ^ 64`. -/
structure Rereads (u : UseListOrder) : Prop where
  value : u.value.Readable ∧ u.value.ty.fits
  indices : u.indices ≠ []
  bounded : ∀ n ∈ u.indices, n < bound64

/-- The indices of a use-list order, each after the one before and a `, `, up to the `}`. -/
theorem readsAt_useListIndices : ∀ {idx : List Nat}, idx ≠ [] → (∀ n ∈ idx, n < bound64) →
    ∀ {steps : Nat}, idx.length ≤ steps →
      ReadsAt (useListIndices steps) ((", ".intercalate (idx.map toString)).toList ++ [' ', '}'])
        (fun _ => True) idx
  | [], h, _, _, _ => absurd rfl h
  | n :: rest, _, hb, steps, hsteps => by
    obtain ⟨s, rfl⟩ : ∃ s, steps = s + 1 := ⟨steps - 1, by simp at hsteps; omega⟩
    have hn := readsAt_readNumber (hb n List.mem_cons_self)
    rw [useListIndices]
    cases rest with
    | nil =>
      -- the last index, then the `}`
      refine ReadsAt.of_text_eq (ReadsAt.bind hn
        (ReadsAt.bind ((readsAt_tryChar_hit (F := fun _ => True) (by decide) (by decide)).space
          (skipsBlanks_tryChar '}')) (ReadsAt.pure _) fun _ _ => trivial)
        fun _ _ x hx => ?_) (by simp)
      cases hx
      decide
    | cons m rest' =>
      have hrest := readsAt_useListIndices (List.cons_ne_nil m rest')
        (fun x hx => hb x (List.mem_cons_of_mem n hx))
        (show (m :: rest').length ≤ s by simp only [List.length_cons] at hsteps ⊢; omega)
      obtain ⟨s', rfl⟩ : ∃ s', s = s' + 1 := ⟨s - 1, by simp only [List.length_cons] at hsteps; omega⟩
      -- an index, no `}`, the `,`, and the others after a space
      refine ReadsAt.of_text_eq (ReadsAt.bind hn
        (ReadsAt.bind readsAt_tryChar_miss
          (ReadsAt.bind (readsAt_expect (F := fun _ => True) (by decide) (by decide))
            (ReadsAt.bind_pure (hrest.space (skipsBlanks_useListIndices s')))
            fun _ _ => trivial)
          fun _ _ => ⟨fun x hx => ?_, fun h => ?_⟩)
        fun _ _ x hx => ?_) (by simp)
      · cases hx
        exact ⟨by decide, by decide⟩
      · cases h
      · cases hx
        decide

theorem toList_render (t : LocalTable) (u : UseListOrder) :
    (u.render t).toList = "uselistorder".toList ++ (' ' :: ((u.value.renderTyped t).toList ++
      ([','] ++ ((' ' :: ['{']) ++
        (' ' :: ((", ".intercalate (u.indices.map toString)).toList ++ [' ', '}'])))))) := by
  simp [render]

variable {t : LocalTable} {fuel : Nat}

/-- A use-list order after its leading word. -/
theorem readsAt_parseUseListOrder (ht : t.NumbersFit) {u : UseListOrder} (hu : u.Rereads)
    (hf : 2 * (u.render t).length < fuel) {steps : Nat} (hsteps : (u.render t).length ≤ steps) :
    ReadsAt (parseUseListOrder fuel steps)
      (' ' :: ((u.value.renderTyped t).toList ++ ([','] ++ ((' ' :: ['{']) ++
        (' ' :: ((", ".intercalate (u.indices.map toString)).toList ++ [' ', '}']))))))
      (fun _ => True) (u.toAst t) := by
  have hlen := congrArg List.length (toList_render t u)
  simp only [String.length_toList, List.length_append, List.length_cons, List.length_nil] at hlen
  have hcount := length_le_intercalate_comma (u.indices.map toString)
  rw [List.length_map] at hcount
  obtain ⟨F, rfl⟩ : ∃ F, fuel = F + 1 := ⟨fuel - 1, by omega⟩
  obtain ⟨s, rfl⟩ : ∃ s, steps = s + 1 := ⟨steps - 1, by omega⟩
  unfold parseUseListOrder
  exact (ReadsAt.bind (Value.readsAt_parseTypedValue ht hu.value.1 hu.value.2 (by omega))
    (ReadsAt.bind (readsAt_expect (F := fun _ => True) (by decide) (by decide))
      (ReadsAt.bind ((readsAt_expect (F := fun _ => True) (by decide) (by decide)).space
          (skipsBlanks_expect '{'))
        (ReadsAt.bind_pure ((readsAt_useListIndices hu.indices hu.bounded (by omega)).space
          (skipsBlanks_useListIndices s)))
        fun _ _ => trivial)
      fun _ _ => trivial)
    fun _ _ x hx => by cases hx; decide).space ((skipsBlanks_parseTypedValue F).bind _)

/-- The text of a body's use-list orders: each after a tab and followed by a line feed. -/
def listText (t : LocalTable) : List UseListOrder → List Char
  | [] => []
  | u :: us => '\t' :: (u.render t).toList ++ '\n' :: listText t us

theorem toList_join_render (t : LocalTable) (us : List UseListOrder) :
    (String.join (us.map fun u => "\t" ++ u.render t ++ "\n")).toList = listText t us := by
  induction us with
  | nil => rfl
  | cons u us ih =>
    rw [List.map_cons, String.join_cons, String.toList_append, ih]
    simp [listText]

/-- **The use-list orders of a body read back**, up to the `}` that closes it, once a block has
been read. -/
theorem readsAt_bodyItems (ht : t.NumbersFit) {uses : List UseListOrder}
    (huses : ∀ u ∈ uses, u.Rereads) (hf : 2 * (listText t uses).length < fuel) :
    ∀ (blocks : List Ast.Block) (acc : List Ast.UseListOrder) (steps : Nat), blocks ≠ [] →
      (listText t uses).length < steps →
      ReadsAt (bodyItems fuel steps blocks acc) (listText t uses ++ ['}']) (fun _ => True)
        ⟨blocks.reverse, acc.reverse ++ uses.map (·.toAst t)⟩ := by
  induction uses with
  | nil =>
    intro blocks acc steps hne hsteps
    obtain ⟨s, rfl⟩ : ∃ s, steps = s + 1 := ⟨steps - 1, by omega⟩
    obtain ⟨b, bs, rfl⟩ := List.exists_cons_of_ne_nil hne
    rw [List.map_nil, List.append_nil, bodyItems]
    -- the `}` closes a body that has a block
    exact ReadsAt.of_text_eq (readsAt_skip_peek (show (['}'] ++ [] : List Char).head? = some '}' from rfl)
      (by decide) (by decide)
      (ReadsAt.bind (readsAt_advance (F := fun _ => True) '}') (ReadsAt.pure _) fun _ _ => trivial))
      (by simp [listText])
  | cons u us ih =>
    intro blocks acc steps hne hsteps
    have hu := huses u List.mem_cons_self
    have hlen : (listText t (u :: us)).length = (u.render t).length + 2 + (listText t us).length := by
      simp only [listText, List.length_cons, List.length_append, String.length_toList]
      omega
    obtain ⟨s, rfl⟩ : ∃ s, steps = s + 1 := ⟨steps - 1, by omega⟩
    obtain ⟨s', rfl⟩ : ∃ s', s = s' + 1 := ⟨s - 1, by omega⟩
    have hrest := ih (fun v hv => huses v (List.mem_cons_of_mem u hv)) (by omega) blocks
      (u.toAst t :: acc) (s' + 1) hne (by omega)
    rw [show (u.toAst t :: acc).reverse ++ us.map (·.toAst t) =
      acc.reverse ++ (u :: us).map (·.toAst t) by simp] at hrest
    have htext : listText t (u :: us) ++ ['}'] = '\t' :: ("uselistorder".toList ++
        ((' ' :: ((u.value.renderTyped t).toList ++ ([','] ++ ((' ' :: ['{']) ++
          (' ' :: ((", ".intercalate (u.indices.map toString)).toList ++ [' ', '}'])))))) ++
        ('\n' :: (listText t us ++ ['}'])))) := by
      simp [listText, toList_render]
    rw [htext]
    refine ReadsAt.blank (by decide) (skipsBlanks_bodyItems fuel (s' + 1) _ _) ?_
    rw [bodyItems]
    -- the word `uselistorder` opens a use-list order
    exact readsAt_skip_peek rfl (by decide) (by decide)
      (ReadsAt.bind (readsAt_tryWord_hit (by decide) (forall_mem_of_all (by decide)))
        (ReadsAt.bind (readsAt_parseUseListOrder ht hu (by omega) (by omega))
          (hrest.blank (by decide) (skipsBlanks_bodyItems fuel s' _ _)) fun _ _ => trivial)
        fun _ _ x hx => by cases hx; decide)

end UseListOrder

namespace Block

/-- **What a block needs for its text to read back**: its instructions and terminator read back,
and its label's leading word is not `uselistorder`, which opens a use-list order. -/
structure Rereads (t : LocalTable) (b : Block) : Prop where
  insts : ∀ i ∈ b.insts, i.kind.Rereads
  term : b.term.Rereads
  label : (t.ident b.label).label.toList.takeWhile isWordChar ≠ "uselistorder".toList

/-- The text of a body's blocks: each after a line feed and followed by one. -/
def listText (t : LocalTable) : List Block → List Char
  | [] => []
  | b :: bs => '\n' :: (b.render t).toList ++ '\n' :: listText t bs

theorem toList_intercalate_render (t : LocalTable) :
    ∀ bs : List Block, bs ≠ [] →
      ("\n" ++ "\n".intercalate (bs.map fun b => b.render t ++ "\n")).toList = listText t bs
  | [], h => absurd rfl h
  | [b], _ => by simp [listText]
  | b :: b' :: bs, _ => by
    have ih := toList_intercalate_render t (b' :: bs) (List.cons_ne_nil _ _)
    rw [List.map_cons] at ih
    rw [List.map_cons, List.map_cons, String.intercalate_cons_cons]
    simp only [String.toList_append] at ih ⊢
    rw [listText, ← ih]
    simp

end Block

end LlvmAsm
