import LlvmAsm.Proofs.Printed.Body

/-!
# `Proofs.Printed.Attributes` — reading printed attributes back

An attribute is printed as its keyword and its argument in parentheses, as `align N`, as its
quoted key and value, or as `#N`. `parseAttribute` reads each back (`readsAt_parseAttribute`) when
a keyword is a word other than `align` whose argument closes where it is printed to close, and its
numbers fit the bounds the reader takes (`Attribute.Rereads`); what follows an attribute opens no
word and no `(` or `=`, which would extend it (`AttrEnd`).

The same holds of the lists attributes stand in: the metadata attachments of a function and the
attributes of a group (`readsAt_metadataAttachments`, `AttrGroupDef.readsAt_parseAttrGroup`).
-/

namespace LlvmAsm

open Ast Reader

namespace Ast.Reader

variable {α : Type} {t : List Char} {F : List Char → Prop} {a : α}

/-- An attribute argument that reads back whole: the parenthesis before it is closed by the one
after it, whatever follows. -/
def ArgReads (arg : String) : Prop :=
  ∀ r, balancedEnd ('(' :: arg.toList ++ ')' :: r) 0 0 = some (arg.length + 2)

/-- Text after an attribute: it opens no word, argument or value. -/
def AttrEnd (r : List Char) : Prop := ∀ ch ∈ r.head?, isWordChar ch = false ∧ ch ≠ '(' ∧ ch ≠ '='

/-- What the next character is decides the reader that follows a `peek`. -/
theorem readsAt_peek_bind {k : Option Char → Reader α} {P : Option Char → Prop}
    (hP : ∀ r, F r → P (t ++ r).head?) (h : ∀ x, P x → ReadsAt (k x) t F a) :
    ReadsAt (peek >>= k) t F a := by
  intro c r hc hr
  rw [run_bind_ok (run_peek c), hc]
  exact h _ (hP r hr) c r hc hr

/-- Skipping the blanks on a line past a space, then looking at the next character. -/
theorem readsAt_space_peek {k : Option Char → Reader α} {P : Option Char → Prop}
    (hnb : ∀ r, F r → NoBlankAhead (t ++ r)) (hP : ∀ r, F r → P (t ++ r).head?)
    (h : ∀ x, P x → ReadsAt (k x) t F a) :
    ReadsAt (skipBlanks false >>= fun _ => peek >>= k) (' ' :: t) F a := by
  intro c r hc hr
  have h1 : (c.advance 1).rest = t ++ r := Cursor.rest_advance_append [' '] (by rw [hc]; rfl)
  have hskip : (c.advance 1).skipBlanks false = c.advance 1 :=
    skipBlanks_of_noBlankAhead (by rw [h1]; exact hnb r hr) false
  rw [run_bind_ok (run_skipBlanks _ _), Cursor.skipBlanks_space hc, hskip, run_bind_ok (run_peek _),
    h1, h _ (hP r hr) _ r h1 hr, Cursor.advance_advance, List.length_cons, Nat.add_comm]

/-- Skipping the blanks on a line where none stands, then looking at the next character. -/
theorem readsAt_noSpace_peek {k : Option Char → Reader α} {P : Option Char → Prop}
    (hnb : ∀ r, F r → NoBlankAhead (t ++ r)) (hP : ∀ r, F r → P (t ++ r).head?)
    (h : ∀ x, P x → ReadsAt (k x) t F a) :
    ReadsAt (skipBlanks false >>= fun _ => peek >>= k) t F a := by
  intro c r hc hr
  rw [run_bind_ok (run_skipBlanks _ _), skipBlanks_of_noBlankAhead (by rw [hc]; exact hnb r hr),
    run_bind_ok (run_peek _), hc]
  exact h _ (hP r hr) c r hc hr

/-- A reader that skips the blanks on its line first reads its text after a space too. -/
theorem ReadsAt.space_line {k : Option Char → Reader α} (hnb : ∀ r, F r → NoBlankAhead (t ++ r))
    (h : ReadsAt (skipBlanks false >>= fun _ => peek >>= k) t F a) :
    ReadsAt (skipBlanks false >>= fun _ => peek >>= k) (' ' :: t) F a := by
  intro c r hc hr
  have h1 : (c.advance 1).rest = t ++ r := Cursor.rest_advance_append [' '] (by rw [hc]; rfl)
  have hskip : (c.advance 1).skipBlanks false = c.advance 1 :=
    skipBlanks_of_noBlankAhead (by rw [h1]; exact hnb r hr) false
  have hrun := h (c.advance 1) r h1 hr
  rw [run_bind_ok (run_skipBlanks _ _), hskip] at hrun
  rw [run_bind_ok (run_skipBlanks _ _), Cursor.skipBlanks_space hc, hskip, hrun, Cursor.advance_advance,
    List.length_cons, Nat.add_comm]

theorem readsAt_readBalanced {arg : String} (h : ArgReads arg) :
    ReadsAt readBalanced ('(' :: arg.toList ++ [')']) F arg := by
  intro c r hc _
  have hrest : c.rest = '(' :: arg.toList ++ ')' :: r := by rw [hc]; simp
  have htake : ((c.rest.take (arg.length + 2 - 1)).drop 1) = arg.toList := by
    rw [hrest, show arg.length + 2 - 1 = arg.toList.length + 1 by rw [String.length_toList]; omega]
    simp
  simp only [readBalanced]
  rw [run_bind_ok (run_get c)]
  simp only [hrest ▸ h r]
  rw [run_bind_ok (run_advance _ _)]
  simp only [htake, String.ofList_toList]
  have hlen : ('(' :: arg.toList ++ [')']).length = arg.length + 2 := by
    rw [List.cons_append, List.length_cons, List.length_append, String.length_toList]
    rfl
  rw [hlen]
  rfl

/-- A quoted string is read as the string it quotes. -/
theorem readsAt_readString (s : String) :
    ReadsAt readString (Text.quote s.toUTF8.toList).toList F s := by
  intro c r hc _
  have hskip : c.skipBlanks true = c :=
    Cursor.skipBlanks_of_head (by rw [hc, Text.toList_quote]; rfl) (by decide) (by decide) true
  rw [run_readString_quote (by rw [hskip]; exact hc), hskip, String.length_toList]

theorem skipsBlanks_readString : SkipsBlanks readString := by
  unfold readString
  exact skipsBlanks_skip_bind _

theorem readsAt_readName (name : String) :
    ReadsAt readName (Text.ident name).toList
      (fun r => Text.isBare name → ∀ x ∈ r.head?, isNameChar x = false) name :=
  fun _ _ hc hr => by rw [run_readName hc hr, String.length_toList]

end Ast.Reader

namespace Attribute

/-- **What an attribute needs for its text to read back**: a keyword is a word other than
`align`, and its argument closes where it is printed to close; an alignment fits 64 bits and a
group's number 32 bits. -/
def Rereads : Attribute → Prop
  | .keyword name arg =>
    name.toList ≠ [] ∧ (∀ x ∈ name.toList, isWordChar x) ∧ name ≠ "align" ∧ ∀ a ∈ arg, ArgReads a
  | .align n => n < bound64
  | .pair _ _ => True
  | .group id => id < bound32

theorem toList_render_keyword (name arg : String) :
    (Attribute.keyword name (some arg)).render.toList = name.toList ++ ('(' :: arg.toList ++ [')']) := by
  simp [render]

theorem toList_render_align (n : Nat) :
    (Attribute.align n).render.toList = "align".toList ++ (' ' :: (toString n).toList) := by
  simp [render]

theorem toList_render_pair (key value : String) :
    (Attribute.pair key (some value)).render.toList =
      (Text.quote key.toUTF8.toList).toList ++ (['='] ++ (Text.quote value.toUTF8.toList).toList) := by
  simp [render]

theorem toList_render_group (id : Nat) :
    (Attribute.group id).render.toList = ['#'] ++ (toString id).toList := by
  simp [render]

/-- **A printed attribute reads back.** -/
theorem readsAt_parseAttribute {a : Attribute} (ha : a.Rereads) :
    ReadsAt parseAttribute a.render.toList AttrEnd a := by
  have hdigit : ∀ r, AttrEnd r → ∀ x ∈ r.head?, isDigitChar x = false := fun r hr x hx => by
    cases hd : isDigitChar x
    · rfl
    · exact absurd (isWordChar_of_isDigitChar hd) (by rw [(hr x hx).1]; decide)
  unfold parseAttribute
  cases a with
  | group id =>
    refine readsAt_skip_peek (show (Attribute.group id).render.toList.head? = some '#' by simp [render])
      (by decide) (by decide) ?_
    rw [toList_render_group]
    exact ReadsAt.bind (readsAt_advance (F := fun _ => True) _)
      (ReadsAt.bind_pure ((readsAt_readNumber ha).mono hdigit)) fun _ _ => trivial
  | pair key value =>
    refine readsAt_skip_peek (show (Attribute.pair key value).render.toList.head? = some '"' by
      cases value <;> simp [render, Text.toList_quote]) (by decide) (by decide) ?_
    cases value with
    | none =>
      refine ReadsAt.of_text_eq (ReadsAt.bind (readsAt_readString (F := fun _ => True) key)
        (readsAt_peek_bind (t := []) (P := fun x => x ≠ some '=') (fun r hr => ?_) fun x hx => ?_)
        fun _ _ => trivial) (by simp [render])
      · intro he
        exact (hr '=' he).2.2 rfl
      · rw [if_neg hx]
        exact ReadsAt.pure _
    | some value =>
      rw [toList_render_pair]
      exact ReadsAt.bind (readsAt_readString (F := fun _ => True) key)
        (readsAt_peek_bind (P := fun x => x = some '=') (fun _ _ => rfl) fun x hx => by
          rw [if_pos hx]
          exact ReadsAt.bind (readsAt_advance (F := fun _ => True) _)
            (ReadsAt.bind_pure (readsAt_readString value)) fun _ _ => trivial)
        fun _ _ => trivial
  | align n =>
    refine readsAt_skip_peek (show (Attribute.align n).render.toList.head? = some 'a' by simp [render])
      (by decide) (by decide) ?_
    rw [toList_render_align]
    exact ReadsAt.bind (readsAt_readWord_toList (w := "align") (by decide) (forall_mem_of_all (by decide)))
      (ReadsAt.bind_pure (((readsAt_readNumber ha).mono hdigit).space (skipsBlanks_readNumber _)))
      fun _ _ x hx => by cases hx; decide
  | keyword name arg =>
    obtain ⟨hne, hw, halign, harg⟩ := ha
    obtain ⟨x, xs, hx⟩ := List.exists_cons_of_ne_nil hne
    have hxw := hw x (by rw [hx]; exact List.mem_cons_self)
    obtain ⟨hxb, hxs⟩ := noBlankAhead_of_word (r := []) hne hw x (by rw [hx]; rfl)
    have htext : ∃ tl, (Attribute.keyword name arg).render.toList = x :: tl := by
      cases arg <;> simp [render, hx]
    obtain ⟨tl, htl⟩ := htext
    refine readsAt_skip_peek (by rw [htl]; rfl) hxb hxs ?_
    -- a word opens the attribute: it is neither a group nor a quoted pair
    split
    · next h => cases Option.some.inj h; exact absurd hxw (by decide)
    · next h => cases Option.some.inj h; exact absurd hxw (by decide)
    cases arg with
    | none =>
      refine ReadsAt.of_text_eq (ReadsAt.bind (readsAt_readWord_toList hne hw)
        (show ReadsAt _ [] _ _ from ?_)
        fun r (hr : AttrEnd r) y hy => (hr y hy).1) (show name.toList ++ [] = _ by simp [render])
      rw [if_neg halign]
      exact readsAt_peek_bind (P := fun x => x ≠ some '(') (fun r hr he => (hr '(' he).2.1 rfl)
        fun y hy => by rw [if_neg hy]; exact ReadsAt.pure _
    | some arg =>
      rw [toList_render_keyword]
      refine ReadsAt.bind (readsAt_readWord_toList hne hw) ?_ fun _ _ y hy => by cases hy; decide
      rw [if_neg halign]
      exact readsAt_peek_bind (P := fun x => x = some '(') (fun _ _ => rfl) fun y hy => by
        rw [if_pos hy]
        exact ReadsAt.bind_pure (readsAt_readBalanced (harg arg rfl))

/-- An attribute opens with `#`, a quote or a word. -/
theorem render_head {a : Attribute} (ha : a.Rereads) :
    ∃ ch tl, a.render.toList = ch :: tl ∧ (ch = '#' ∨ ch = '"' ∨ isWordChar ch = true) := by
  cases a with
  | keyword name arg =>
    obtain ⟨x, xs, hx⟩ := List.exists_cons_of_ne_nil ha.1
    have hxw := ha.2.1 x (by rw [hx]; exact List.mem_cons_self)
    cases arg with
    | none => exact ⟨x, xs, by simp [render, hx], Or.inr (Or.inr hxw)⟩
    | some arg => exact ⟨x, _, by simp [render, hx]; rfl, Or.inr (Or.inr hxw)⟩
  | align n => exact ⟨'a', _, by simp [render]; rfl, Or.inr (Or.inr rfl)⟩
  | pair key value =>
    cases value <;> exact ⟨'"', _, by simp [render, Text.toList_quote]; rfl, Or.inr (Or.inl rfl)⟩
  | group id => exact ⟨'#', _, by simp [render]; rfl, Or.inl rfl⟩

/-- What opens an attribute is no blank and none of `;`, `,`, `)`, `}`, `%`, `[`, `<`, `{` or
`!`. -/
theorem render_head_facts {a : Attribute} (ha : a.Rereads) :
    ∃ ch tl, a.render.toList = ch :: tl ∧ Cursor.isBlank ch = false ∧
      ch ∉ [';', ',', ')', '}', '%', '[', '<', '{', '!'] := by
  obtain ⟨ch, tl, htl, hch⟩ := render_head ha
  refine ⟨ch, tl, htl, ?_⟩
  rcases hch with rfl | rfl | hw
  · decide
  · decide
  · obtain ⟨hb, -⟩ := noBlankAhead_of_word (r := []) (List.cons_ne_nil ch [])
      (fun x hx => by rw [List.mem_singleton.mp hx]; exact hw) ch rfl
    refine ⟨hb, fun hmem => ?_⟩
    simp only [List.mem_cons, List.not_mem_nil, or_false] at hmem
    rcases hmem with rfl | rfl | rfl | rfl | rfl | rfl | rfl | rfl | rfl <;> exact absurd hw (by decide)

end Attribute

namespace MetadataAttachment

/-- The text of metadata attachments, each after a space, and the blank after them. -/
theorem toList_join_render_space (ms : List MetadataAttachment) :
    ∃ tl, (String.join (ms.map (" " ++ ·.render))).toList ++ [' '] = ' ' :: tl ∧
      ∀ r, NoBlankAhead r → NoBlankAhead (tl ++ r) := by
  cases ms with
  | nil => exact ⟨[], rfl, fun _ hr => hr⟩
  | cons m ms =>
    refine ⟨m.render.toList ++ ((String.join (ms.map (" " ++ ·.render))).toList ++ [' ']), by simp,
      fun _ _ x hx => ?_⟩
    rw [show m.render.toList = '!' :: ((Text.ident m.kind).toList ++ ((" !" : String).toList ++
      (toString m.node).toList)) by simp [render]] at hx
    cases hx
    decide

/-- After the space before the first metadata attachment comes a `!`, or, with none, what follows. -/
theorem head_tail_join_render (ms : List MetadataAttachment) (r : List Char) :
    (((String.join (ms.map (" " ++ ·.render))).toList ++ [' ']).tail ++ r).head? = r.head? ∨
      (((String.join (ms.map (" " ++ ·.render))).toList ++ [' ']).tail ++ r).head? = some '!' := by
  cases ms with
  | nil => exact Or.inl rfl
  | cons m ms =>
    right
    simp [render]

/-- Metadata attachments read where the first opens read after the space before it too. -/
theorem readsAt_metadataAttachments_space {ms : List MetadataAttachment} {s : Nat}
    {F : List Char → Prop} (hF : ∀ r, F r → NoBlankAhead r)
    (h : ReadsAt (metadataAttachments (s + 1)) ((String.join (ms.map (" " ++ ·.render))).toList ++ [' ']).tail
      F ms) :
    ReadsAt (metadataAttachments (s + 1)) ((String.join (ms.map (" " ++ ·.render))).toList ++ [' ']) F ms := by
  obtain ⟨tl, htl, hnb⟩ := toList_join_render_space ms
  rw [htl, List.tail_cons] at h
  rw [htl]
  rw [metadataAttachments] at h ⊢
  exact h.space_line fun r hr => hnb r (hF r hr)

/-- **The metadata attachments of a function read back** where the first opens, with the blank
after them, when their nodes fit 32 bits; what follows is no blank and no `!`. -/
theorem readsAt_metadataAttachments_tail : ∀ (ms : List MetadataAttachment), (∀ m ∈ ms, m.node < bound32) →
    ∀ (steps : Nat), ms.length < steps →
      ReadsAt (metadataAttachments steps) ((String.join (ms.map (" " ++ ·.render))).toList ++ [' ']).tail
        (fun r => NoBlankAhead r ∧ r.head? ≠ some '!') ms
  | [], _, steps, hsteps => by
    obtain ⟨s, rfl⟩ : ∃ s, steps = s + 1 := ⟨steps - 1, by simp at hsteps; omega⟩
    rw [metadataAttachments]
    exact readsAt_noSpace_peek (t := []) (P := fun x => x ≠ some '!') (fun _ hr => hr.1)
      (fun _ hr => hr.2) fun x hx => by rw [if_pos hx]; exact ReadsAt.pure _
  | m :: ms, hm, steps, hsteps => by
    obtain ⟨s, rfl⟩ : ∃ s, steps = s + 2 := ⟨steps - 2, by simp at hsteps; omega⟩
    have hrest := readsAt_metadataAttachments_space (fun _ hr => hr.1)
      (readsAt_metadataAttachments_tail ms (fun m' hm' => hm m' (List.mem_cons_of_mem m hm'))
        (s + 1) (by simp only [List.length_cons] at hsteps; omega))
    obtain ⟨tl, htl, -⟩ := toList_join_render_space ms
    have htext : ((String.join ((m :: ms).map (" " ++ ·.render))).toList ++ [' ']).tail =
        ['!'] ++ ((Text.ident m.kind).toList ++ ((' ' :: ['!']) ++ ((toString m.node).toList ++
          ((String.join (ms.map (" " ++ ·.render))).toList ++ [' '])))) := by
      simp [render]
    rw [metadataAttachments, htext]
    refine readsAt_noSpace_peek (P := fun x => x = some '!') (fun _ _ x hx => ?_) (fun _ _ => rfl)
      fun x hx => ?_
    · cases hx
      decide
    rw [hx, if_neg (fun h => h rfl)]
    -- the kind, the node after a space and a `!`, and the other attachments
    exact ReadsAt.bind (readsAt_advance (F := fun _ => True) '!')
      (ReadsAt.bind (readsAt_readName m.kind)
        (ReadsAt.bind ((readsAt_expect (F := fun _ => True) (by decide) (by decide)).space
            (skipsBlanks_expect '!'))
          (ReadsAt.bind (readsAt_readNumber (hm m List.mem_cons_self))
            (ReadsAt.bind_pure hrest) fun r _ x hx => by rw [htl] at hx; cases hx; decide)
          fun _ _ => trivial)
        fun _ _ _ x hx => by cases hx; decide)
      fun _ _ => trivial

/-- **The metadata attachments of a function read back**, each after its space, with the blank
after them, when their nodes fit 32 bits; what follows is no blank and no `!`. -/
theorem readsAt_metadataAttachments (ms : List MetadataAttachment) (hm : ∀ m ∈ ms, m.node < bound32)
    (steps : Nat) (hsteps : ms.length < steps) :
    ReadsAt (metadataAttachments steps) ((String.join (ms.map (" " ++ ·.render))).toList ++ [' '])
      (fun r => NoBlankAhead r ∧ r.head? ≠ some '!') ms := by
  obtain ⟨s, rfl⟩ : ∃ s, steps = s + 1 := ⟨steps - 1, by omega⟩
  exact readsAt_metadataAttachments_space (fun _ hr => hr.1)
    (readsAt_metadataAttachments_tail ms hm (s + 1) hsteps)

end MetadataAttachment

namespace AttrGroupDef

/-- **What an attribute group needs for its text to read back**: its number fits 32 bits and its
attributes read back. -/
structure Rereads (g : AttrGroupDef) : Prop where
  id : g.id < bound32
  attrs : ∀ a ∈ g.attrs, a.Rereads

/-- The attributes of a group, each after a space, up to the ` }` that closes it. -/
theorem readsAt_groupAttrs : ∀ (as : List Attribute), (∀ a ∈ as, a.Rereads) →
    ∀ (steps : Nat), as.length < steps →
      ReadsAt (groupAttrs steps) ((String.join (as.map (" " ++ ·.render))).toList ++ [' ', '}'])
        (fun _ => True) as
  | [], _, steps, hsteps => by
    obtain ⟨s, rfl⟩ : ∃ s, steps = s + 1 := ⟨steps - 1, by simp at hsteps; omega⟩
    rw [groupAttrs]
    exact ReadsAt.of_text_eq (ReadsAt.bind ((readsAt_tryChar_hit (F := fun _ => True) (by decide)
      (by decide)).space (skipsBlanks_tryChar '}')) (ReadsAt.pure _) fun _ _ => trivial) (by simp)
  | a :: as, ha, steps, hsteps => by
    obtain ⟨s, rfl⟩ : ∃ s, steps = s + 1 := ⟨steps - 1, by simp at hsteps; omega⟩
    have hrest := readsAt_groupAttrs as (fun a' ha' => ha a' (List.mem_cons_of_mem a ha'))
      s (by simp only [List.length_cons] at hsteps; omega)
    obtain ⟨ch, tl, htl, hb, hnot⟩ := Attribute.render_head_facts (ha a List.mem_cons_self)
    obtain ⟨tl', htl'⟩ : ∃ tl', (String.join (as.map (" " ++ ·.render))).toList ++ [' ', '}'] =
        ' ' :: tl' := by
      cases as <;> simp
    have htext : (String.join ((a :: as).map (" " ++ ·.render))).toList ++ [' ', '}'] =
        (' ' :: []) ++ (a.render.toList ++
          ((String.join (as.map (" " ++ ·.render))).toList ++ [' ', '}'])) := by
      simp
    rw [groupAttrs, htext]
    -- no `}` stands here but an attribute, and the others follow it
    refine ReadsAt.bind (readsAt_tryChar_miss.space (skipsBlanks_tryChar '}'))
      (readsAt_peek_bind (P := fun x => x = some ch) (fun r _ => by rw [htl]; rfl) fun x hx => ?_)
      fun r _ => ⟨fun y hy => ?_, fun he => ?_⟩
    · subst hx
      exact ReadsAt.bind (Attribute.readsAt_parseAttribute (ha a List.mem_cons_self))
        (ReadsAt.bind_pure hrest) fun r _ y hy => by
          rw [htl'] at hy
          cases hy
          decide
    · rw [htl] at hy
      cases hy
      exact ⟨hb, fun h => hnot (by rw [h]; simp)⟩
    · rw [htl] at he
      cases he
      exact hnot (by simp)

theorem toList_render (g : AttrGroupDef) :
    g.render.toList = "attributes".toList ++ (' ' :: ['#'] ++ ((toString g.id).toList ++
      ((' ' :: ['=']) ++ ((' ' :: ['{']) ++
        ((String.join (g.attrs.map (" " ++ ·.render))).toList ++ [' ', '}']))))) := by
  simp [render]

/-- **A printed attribute group reads back** after its leading word. -/
theorem readsAt_parseAttrGroup {g : AttrGroupDef} (hg : g.Rereads) {steps : Nat}
    (hsteps : g.attrs.length < steps) :
    ReadsAt (parseAttrGroup steps) (' ' :: ['#'] ++ ((toString g.id).toList ++
      ((' ' :: ['=']) ++ ((' ' :: ['{']) ++
        ((String.join (g.attrs.map (" " ++ ·.render))).toList ++ [' ', '}']))))) (fun _ => True) g := by
  unfold parseAttrGroup
  exact ReadsAt.bind ((readsAt_expect (F := fun _ => True) (by decide) (by decide)).space
      (skipsBlanks_expect '#'))
    (ReadsAt.bind (readsAt_readNumber hg.id)
      (ReadsAt.bind ((readsAt_expect (F := fun _ => True) (by decide) (by decide)).space
          (skipsBlanks_expect '='))
        (ReadsAt.bind ((readsAt_expect (F := fun _ => True) (by decide) (by decide)).space
            (skipsBlanks_expect '{'))
          (ReadsAt.bind_pure (readsAt_groupAttrs g.attrs hg.attrs steps hsteps)) fun _ _ => trivial)
        fun _ _ => trivial)
      fun _ _ x hx => by cases hx; decide)
    fun _ _ => trivial

end AttrGroupDef

end LlvmAsm
