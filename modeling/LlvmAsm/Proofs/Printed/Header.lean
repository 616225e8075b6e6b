import Mathlib.Data.List.TakeWhile
import LlvmAsm.Proofs.Printed.Attributes

/-!
# `Proofs.Printed.Header` — reading a printed function header back

A header is printed as its optional words (preemption, visibility, DLL storage, calling
convention), its return attributes, its return type, its name, its parameters and the words after
them. The reader takes the words before the return type one at a time by the word under the
cursor (`headerPrefix`): each vocabulary's keyword reads back into its field, `cc N` into the
convention of `N`, and any other word or a quoted pair into a return attribute, up to the first
type keyword or type bracket (`readsAt_headerPrefix_type`).

So the words read back when a numbered convention names no named one (`CallingConvRereads`) and a
return attribute is no group and opens with no word of the vocabularies before it
(`Attribute.ReturnRereads`); `Function.readsAt_headerPrefix` reads the words of a function's header.
-/

namespace LlvmAsm

open Ast Reader

/-- The text of an optional word of a header, after a space. -/
def optText {α : Type} (x : Option α) (text : α → String) : List Char :=
  match x with
  | some a => ' ' :: (text a).toList
  | none => []

theorem optText_none {α : Type} (text : α → String) : optText none text = [] := rfl

theorem optText_some {α : Type} (a : α) (text : α → String) :
    optText (some a) text = ' ' :: (text a).toList := rfl

namespace Ast.Reader

variable {α : Type} {t : List Char} {F : List Char → Prop} {a : α}

theorem readsAt_advance_text (t : List Char) : ReadsAt (advance t.length) t F () :=
  fun _ _ _ _ => rfl

/-- Reading where the word under the cursor selects what follows. -/
theorem readsAt_wordAt_bind {k : Option String → Reader α} {w tail : List Char}
    (hne : w ≠ []) (hw : ∀ x ∈ w, isWordChar x)
    (htail : ∀ r, F r → ∀ x ∈ (tail ++ r).head?, isWordChar x = false)
    (h : ReadsAt (k (some (String.ofList w))) (w ++ tail) F a) :
    ReadsAt (wordAt >>= k) (w ++ tail) F a := by
  intro c r hc hr
  rw [run_bind_ok (run_wordAt (WordAt.of_append (by rw [hc, List.append_assoc]) hne hw (htail r hr)))]
  exact h c r hc hr

theorem skipsBlanks_headerPrefix (s : Nat) (h : Header) : SkipsBlanks (headerPrefix (s + 1) h) := by
  rw [headerPrefix]
  exact skipsBlanks_skip_bind _

/-- A keyword that no word before it in the header's vocabularies takes, ending where a word
does. -/
theorem readsAt_headerPrefix_preemption (p : Preemption) {s : Nat} {h : Header} {tail : List Char}
    {b : Header} (htail : ∀ r, F r → ∀ x ∈ (tail ++ r).head?, isWordChar x = false)
    (hrest : ReadsAt (headerPrefix s { h with preemption := some p }) tail F b) :
    ReadsAt (headerPrefix (s + 1) h) ((Keyword.keyword p).toList ++ tail) F b := by
  rw [headerPrefix]
  cases p <;>
  exact readsAt_skip_peek rfl (by decide) (by decide)
    (readsAt_wordAt_bind (by decide) (forall_mem_of_all (by decide)) htail (by
      simp only [String.ofList_toList]
      rw [if_neg (by decide)]
      exact ReadsAt.bind (readsAt_advance_text (F := fun _ => True) _) hrest fun _ _ => trivial))

theorem readsAt_headerPrefix_visibility (v : Visibility) {s : Nat} {h : Header} {tail : List Char}
    {b : Header} (htail : ∀ r, F r → ∀ x ∈ (tail ++ r).head?, isWordChar x = false)
    (hrest : ReadsAt (headerPrefix s { h with visibility := some v }) tail F b) :
    ReadsAt (headerPrefix (s + 1) h) ((Keyword.keyword v).toList ++ tail) F b := by
  rw [headerPrefix]
  cases v <;>
  exact readsAt_skip_peek rfl (by decide) (by decide)
    (readsAt_wordAt_bind (by decide) (forall_mem_of_all (by decide)) htail (by
      simp only [String.ofList_toList]
      rw [if_neg (by decide)]
      exact ReadsAt.bind (readsAt_advance_text (F := fun _ => True) _) hrest fun _ _ => trivial))

theorem readsAt_headerPrefix_dll (d : DllStorage) {s : Nat} {h : Header} {tail : List Char}
    {b : Header} (htail : ∀ r, F r → ∀ x ∈ (tail ++ r).head?, isWordChar x = false)
    (hrest : ReadsAt (headerPrefix s { h with dll := some d }) tail F b) :
    ReadsAt (headerPrefix (s + 1) h) ((Keyword.keyword d).toList ++ tail) F b := by
  rw [headerPrefix]
  cases d <;>
  exact readsAt_skip_peek rfl (by decide) (by decide)
    (readsAt_wordAt_bind (by decide) (forall_mem_of_all (by decide)) htail (by
      simp only [String.ofList_toList]
      rw [if_neg (by decide)]
      exact ReadsAt.bind (readsAt_advance_text (F := fun _ => True) _) hrest fun _ _ => trivial))

/-- What a calling convention needs for its text to read back: a numbered one has a number of
32 bits that names no named convention. -/
def CallingConvRereads (cc : CallingConv) : Prop :=
  ∀ n, cc = .numbered n → n < bound32 ∧ CallingConv.ofNumber n = .numbered n

theorem readsAt_headerPrefix_callingConv {cc : CallingConv} (hcc : CallingConvRereads cc) {s : Nat}
    {h : Header} {tail : List Char} {b : Header}
    (htail : ∀ r, F r → ∀ x ∈ (tail ++ r).head?, isWordChar x = false)
    (hrest : ReadsAt (headerPrefix s { h with callingConv := some cc }) tail F b) :
    ReadsAt (headerPrefix (s + 1) h) (cc.render.toList ++ tail) F b := by
  rw [headerPrefix]
  cases cc
  case numbered n =>
    obtain ⟨hn, hnum⟩ := hcc n rfl
    rw [← hnum] at hrest
    have htext : (CallingConv.numbered n).render.toList ++ tail =
        "cc".toList ++ (' ' :: (toString n).toList ++ tail) := by
      simp
    rw [htext]
    refine readsAt_skip_peek rfl (by decide) (by decide)
      (readsAt_wordAt_bind (by decide) (forall_mem_of_all (by decide)) (fun _ _ _ hx => by cases hx; decide) ?_)
    simp only [String.ofList_toList]
    rw [if_neg (by decide)]
    exact ReadsAt.bind (readsAt_advance_text (F := fun _ => True) _)
      (ReadsAt.bind ((readsAt_readNumber hn).space (skipsBlanks_readNumber _)) hrest
        fun r hr x hx => by
          cases hd : isDigitChar x
          · rfl
          · exact absurd (isWordChar_of_isDigitChar hd) (by rw [htail r hr x hx]; decide))
      fun _ _ => trivial
  all_goals
  exact readsAt_skip_peek rfl (by decide) (by decide)
    (readsAt_wordAt_bind (by decide) (forall_mem_of_all (by decide)) htail (by
      simp only [String.ofList_toList]
      rw [if_neg (by decide)]
      exact ReadsAt.bind (readsAt_advance_text (F := fun _ => True) _) hrest fun _ _ => trivial))

/-- A word the words before a return type read as a return attribute: no type keyword, no
keyword of preemption, visibility, DLL storage or calling convention, and not `cc`. -/
def PrefixWord (w : String) : Prop :=
  isTypeKeyword w = false ∧ (Keyword.ofKeyword? w : Option Preemption) = none ∧
    (Keyword.ofKeyword? w : Option Visibility) = none ∧
    (Keyword.ofKeyword? w : Option DllStorage) = none ∧ CallingConv.ofKeyword? w = none ∧ w ≠ "cc"

end Ast.Reader

namespace Attribute

/-- The word an attribute opens with, if it opens with one. -/
def word? : Attribute → Option String
  | .keyword name _ => some name
  | .align _ => some "align"
  | .pair .. | .group _ => none

/-- An attribute that opens with a word is that word and then text no word character continues. -/
theorem render_word {a : Attribute} (ha : a.Rereads) {w : String} (hw : a.word? = some w) :
    ∃ rest, a.render.toList = w.toList ++ rest ∧ w.toList ≠ [] ∧ (∀ x ∈ w.toList, isWordChar x) ∧
      ∀ r, AttrEnd r → ∀ x ∈ (rest ++ r).head?, isWordChar x = false := by
  cases a with
  | keyword name arg =>
    cases hw
    cases arg with
    | none => exact ⟨[], by simp [render], ha.1, ha.2.1, fun r hr x hx => (hr x hx).1⟩
    | some arg =>
      exact ⟨'(' :: arg.toList ++ [')'], toList_render_keyword _ _, ha.1, ha.2.1,
        fun _ _ x hx => by cases hx; decide⟩
  | align n =>
    cases hw
    exact ⟨' ' :: (toString n).toList, toList_render_align n, by decide, forall_mem_of_all (by decide),
      fun _ _ x hx => by cases hx; decide⟩
  | pair => cases hw
  | group => cases hw

/-- **What a return attribute needs for its text to read back** before the return type: it reads
back, is no group, and the word it opens with is read as an attribute there. -/
structure ReturnRereads (a : Attribute) : Prop where
  rereads : a.Rereads
  not_group : ∀ id, a ≠ .group id
  word : ∀ w ∈ a.word?, PrefixWord w

end Attribute

namespace Ast.Reader

theorem readsAt_headerPrefix_attr {a : Attribute} (ha : a.ReturnRereads) {s : Nat} {h : Header}
    {tail : List Char} {b : Header} (htail : ∀ r, F r → AttrEnd (tail ++ r))
    (hrest : ReadsAt (headerPrefix s { h with returnAttrs := h.returnAttrs ++ [a] }) tail F b) :
    ReadsAt (headerPrefix (s + 1) h) (a.render.toList ++ tail) F b := by
  have hread := ReadsAt.bind (f := fun a' => headerPrefix s { h with returnAttrs := h.returnAttrs ++ [a'] })
    (Attribute.readsAt_parseAttribute ha.rereads) hrest htail
  rw [headerPrefix]
  cases hword : a.word? with
  | none =>
    -- a quoted pair
    cases a with
    | keyword => cases hword
    | align => cases hword
    | group id => exact absurd rfl (ha.not_group id)
    | pair key value =>
      refine readsAt_skip_peek (show ((Attribute.pair key value).render.toList ++ tail).head? = some '"' by
        cases value <;> simp [Attribute.render, Text.toList_quote]) (by decide) (by decide) ?_
      exact hread
  | some w =>
    obtain ⟨rest, hrender, hne, hw, hrest'⟩ := Attribute.render_word ha.rereads hword
    obtain ⟨htype, hpre, hvis, hdll, hcc, hnotcc⟩ := ha.word w hword
    obtain ⟨x, xs, hx⟩ := List.exists_cons_of_ne_nil hne
    have hxw := hw x (by rw [hx]; exact List.mem_cons_self)
    obtain ⟨hxb, hxs⟩ := noBlankAhead_of_word (r := []) hne hw x (by rw [hx]; rfl)
    refine readsAt_skip_peek (by rw [hrender, hx]; rfl) hxb hxs ?_
    -- the word opens neither a type bracket nor a quoted pair
    split
    · next h => cases Option.some.inj h; exact absurd hxw (by decide)
    · next h => cases Option.some.inj h; exact absurd hxw (by decide)
    · next h => cases Option.some.inj h; exact absurd hxw (by decide)
    · next h => cases Option.some.inj h; exact absurd hxw (by decide)
    · next h => cases Option.some.inj h; exact absurd hxw (by decide)
    rw [hrender, List.append_assoc]
    refine readsAt_wordAt_bind hne hw (fun r hr => by rw [List.append_assoc]; exact hrest' _ (htail r hr)) ?_
    rw [String.ofList_toList]
    dsimp only
    rw [if_neg (by simp [htype]), hpre]
    dsimp only
    rw [hvis]
    dsimp only
    rw [hdll]
    dsimp only
    rw [hcc]
    dsimp only
    rw [if_neg hnotcc, ← List.append_assoc, ← hrender]
    exact hread

end Ast.Reader

namespace Ty

theorem isTypeKeyword_int (bits : Nat) :
    Ast.Reader.isTypeKeyword (String.ofList ('i' :: (toString bits).toList)) = true := by
  have := isDigitChar_of_toString (n := bits)
  rw [Ast.Reader.isTypeKeyword, String.toList_ofList]
  simp_all [List.all_eq_true]

/-- **The text of a type opens with `%` or a bracket, or with a type keyword** that ends where
a word does: where the words before a return type stop. -/
theorem render_opens : ∀ t : Ty,
    (∃ ch ∈ ['%', '[', '<', '{'], t.render.toList.head? = some ch) ∨
    ∃ w tl, t.render.toList = w ++ tl ∧ w ≠ [] ∧ (∀ x ∈ w, isWordChar x) ∧
      isTypeKeyword (String.ofList w) = true ∧ ∀ x ∈ tl.head?, isWordChar x = false
  | .pointer elem space => by
    have hsuffix : ∀ x ∈ ((if space = 0 then "" else " addrspace(" ++ toString space ++ ")") ++
        "*").toList.head?, isWordChar x = false := by
      split <;> simp <;> decide
    rcases render_opens elem with ⟨ch, hch, h⟩ | ⟨w, tl, htext, hne, hw, hkw, htl⟩
    · exact .inl ⟨ch, hch, by simp [render, List.head?_append, h]⟩
    · refine .inr ⟨w, tl ++ ((if space = 0 then "" else " addrspace(" ++ toString space ++ ")") ++
        "*").toList, by simp [render, htext], hne, hw, hkw, ?_⟩
      cases tl with
      | nil => simpa using hsuffix
      | cons x xs => exact htl
  | .func ret params variadic => by
    rcases render_opens ret with ⟨ch, hch, h⟩ | ⟨w, tl, htext, hne, hw, hkw, htl⟩
    · exact .inl ⟨ch, hch, by simp [render, List.head?_append, h]⟩
    · refine .inr ⟨w, tl ++ (" (" ++ renderList params ++
        (if variadic then (if params.isEmpty then "..." else ", ...") else "") ++ ")").toList,
        by simp [render, htext], hne, hw, hkw, ?_⟩
      cases tl with
      | nil => simp; decide
      | cons x xs => exact htl
  | .void => .inr ⟨"void".toList, [], by simp [render], by decide, forall_mem_of_all (by decide),
      by decide, by simp⟩
  | .int bits => .inr ⟨'i' :: (toString bits).toList, [], by simp [render], by simp,
      fun x hx => by
        rcases List.mem_cons.mp hx with rfl | hx
        · decide
        · exact isWordChar_of_isDigitChar (isDigitChar_of_toString x hx),
      isTypeKeyword_int bits, by simp⟩
  | .float kind => .inr ⟨kind.name.toList, [], by simp [render], by cases kind <;> decide,
      forall_mem_of_all (by cases kind <;> decide), by cases kind <;> decide, by simp⟩
  | .label => .inr ⟨"label".toList, [], by simp [render], by decide, forall_mem_of_all (by decide),
      by decide, by simp⟩
  | .token => .inr ⟨"token".toList, [], by simp [render], by decide, forall_mem_of_all (by decide),
      by decide, by simp⟩
  | .array .. => .inl ⟨'[', by decide, by simp [render]⟩
  | .vector .. => .inl ⟨'<', by decide, by simp [render]⟩
  | .struct false [] => .inl ⟨'{', by decide, rfl⟩
  | .struct false (_ :: _) => .inl ⟨'{', by decide, by simp [render]⟩
  | .struct true fields => .inl ⟨'<', by decide, by cases fields <;> simp [render]⟩
  | .named _ => .inl ⟨'%', by decide, by simp [render, Text.localName]⟩

end Ty

namespace Ast.Reader

/-- Text that the text of a type opens, with no word character right after it. -/
def AtType (ty : Ty) (r : List Char) : Prop :=
  ∃ r', r = ty.render.toList ++ r' ∧ ∀ x ∈ r'.head?, isWordChar x = false

/-- **The words before a return type stop at the type.** -/
theorem readsAt_headerPrefix_type (ty : Ty) (s : Nat) (h : Header) :
    ReadsAt (headerPrefix (s + 1) h) [] (AtType ty) h := by
  intro c r hc hr
  obtain ⟨r', rfl, hr'⟩ := hr
  rw [List.nil_append] at hc
  obtain ⟨ch, hch, hhead⟩ := Ty.render_head ty
  have hskip : c.skipBlanks true = c :=
    Cursor.skipBlanks_of_head (by rw [hc, List.head?_append, hhead]; rfl)
      (typeOpener_facts ch hch).1 (typeOpener_facts ch hch).2 true
  rw [headerPrefix, run_bind_ok (run_skipBlanks _ _), hskip, run_bind_ok (run_peek _), hc]
  rcases Ty.render_opens ty with ⟨ch, hch, hhead⟩ | ⟨w, tl, htext, hne, hw, hkw, htl⟩
  · -- `%` or a bracket opens the type
    rw [List.head?_append, hhead]
    simp only [List.mem_cons, List.not_mem_nil, or_false] at hch
    rcases hch with rfl | rfl | rfl | rfl <;> rfl
  · obtain ⟨x, xs, rfl⟩ := List.exists_cons_of_ne_nil hne
    have hxw := hw x List.mem_cons_self
    rw [htext, List.append_assoc, List.cons_append, List.head?_cons]
    -- a type keyword: the word under the cursor is it
    split
    · next h => cases Option.some.inj h; exact absurd hxw (by decide)
    · next h => cases Option.some.inj h; exact absurd hxw (by decide)
    · next h => cases Option.some.inj h; exact absurd hxw (by decide)
    · next h => cases Option.some.inj h; exact absurd hxw (by decide)
    · next h => cases Option.some.inj h; exact absurd hxw (by decide)
    have hword : WordAt c.rest (x :: xs) := WordAt.of_append
      (by rw [hc, htext, List.append_assoc]) hne hw fun y hy => by
        cases tl with
        | nil => exact hr' y hy
        | cons z zs => exact htl y hy
    rw [run_bind_ok (run_wordAt hword)]
    dsimp only
    rw [if_pos hkw]
    rfl

/-- **An optional word before the return type reads back**, after a space but as the first word,
where its own reading and the reading of the words after it do; `set` records it in the header. -/
theorem readsAt_headerPrefix_optional {β : Type} {F : List Char → Prop} {x : Option β}
    {text : β → String} (set : Option β → Header → Header) {rest : List Char} {h b : Header}
    {n : Nat} (hnone : set none h = h)
    (hitem : ∀ v ∈ x, ∀ s tail, (∀ r, F r → ∀ y ∈ (tail ++ r).head?, isWordChar y = false) →
      ReadsAt (headerPrefix s (set (some v) h)) tail F b →
      ReadsAt (headerPrefix (s + 1) h) ((text v).toList ++ tail) F b)
    (hspace : ∃ tl, rest = ' ' :: tl)
    (hnext : ∀ s, n < s → ReadsAt (headerPrefix s (set x h)) rest.tail F b) :
    ∀ s, n + 1 < s → ReadsAt (headerPrefix s h) (optText x text ++ rest).tail F b := by
  intro s hs
  obtain ⟨tl, rfl⟩ := hspace
  cases x with
  | none =>
    rw [hnone] at hnext
    exact hnext s (by omega)
  | some v =>
    obtain ⟨s, rfl⟩ : ∃ s', s = s' + 2 := ⟨s - 2, by omega⟩
    exact hitem v rfl (s + 1) _ (fun _ _ y hy => by cases hy; decide)
      ((hnext (s + 1) (by omega)).space (skipsBlanks_headerPrefix s _))

/-- An optional word before a text opened by a space opens with a space. -/
theorem optText_append_space {β : Type} (x : Option β) (text : β → String) {rest : List Char}
    (h : ∃ tl, rest = ' ' :: tl) : ∃ tl, optText x text ++ rest = ' ' :: tl := by
  cases x with
  | none => exact h
  | some v => exact ⟨_, rfl⟩

theorem toList_join_space_append {β : Type} (l : List β) (f : β → String) :
    ∃ tl, (String.join (l.map (" " ++ f ·))).toList ++ [' '] = ' ' :: tl := by
  cases l <;> simp

/-- **The return attributes read back**, each after a space but the first, and then the blank
before the type. -/
theorem readsAt_headerPrefix_attrs (ty : Ty) : ∀ (attrs : List Attribute) (h : Header) (s : Nat),
    (∀ a ∈ attrs, a.ReturnRereads) →
    ((String.join (attrs.map (" " ++ ·.render))).toList ++ [' ']).length ≤ s →
    ReadsAt (headerPrefix s h) ((String.join (attrs.map (" " ++ ·.render))).toList ++ [' ']).tail
      (AtType ty) { h with returnAttrs := h.returnAttrs ++ attrs }
  | [], h, s, _, hs => by
    obtain ⟨s, rfl⟩ : ∃ s', s = s' + 1 := ⟨s - 1, by simp at hs; omega⟩
    rw [List.append_nil]
    exact readsAt_headerPrefix_type ty s h
  | a :: as, h, s, ha, hs => by
    obtain ⟨tl, htl⟩ := toList_join_space_append as Attribute.render
    obtain ⟨ch, tl', hrender, -⟩ := Attribute.render_head (ha a List.mem_cons_self).rereads
    have htext : ((String.join ((a :: as).map (" " ++ ·.render))).toList ++ [' ']).tail =
        a.render.toList ++ ((String.join (as.map (" " ++ ·.render))).toList ++ [' ']) := by
      simp
    have hlen : ((String.join (as.map (" " ++ ·.render))).toList ++ [' ']).length + 2 ≤ s := by
      have hl := congrArg List.length htext
      simp only [List.length_tail, List.length_append, List.length_cons, List.length_nil,
        hrender] at hl hs
      have hpos : 1 ≤ ((String.join (as.map (" " ++ ·.render))).toList ++ [' ']).length := by
        simp
      simp only [List.length_append, List.length_cons, List.length_nil] at hpos ⊢
      omega
    obtain ⟨s, rfl⟩ : ∃ s', s = s' + 2 := ⟨s - 2, by omega⟩
    have hrest := readsAt_headerPrefix_attrs ty as { h with returnAttrs := h.returnAttrs ++ [a] } (s + 1)
      (fun a' ha' => ha a' (List.mem_cons_of_mem a ha')) (by omega)
    rw [htl, List.tail_cons] at hrest
    have hval : ({ h with returnAttrs := (h.returnAttrs ++ [a]) ++ as } : Header) =
        { h with returnAttrs := h.returnAttrs ++ a :: as } := by
      simp
    rw [htext, ← hval]
    refine readsAt_headerPrefix_attr (ha a List.mem_cons_self) (fun r _ x hx => ?_)
      (by rw [htl]; exact hrest.space (skipsBlanks_headerPrefix _ _))
    rw [htl] at hx
    cases hx
    decide

end Ast.Reader

namespace Function

/-- The words of a header before its return type, each after a space. -/
def prefixText (f : Function) : List Char :=
  optText f.preemption Keyword.keyword ++ (optText f.visibility Keyword.keyword ++
    (optText f.dll Keyword.keyword ++ (optText f.callingConv CallingConv.render ++
      (String.join (f.returnAttrs.map (" " ++ ·.render))).toList)))

/-- **The words before a return type read back**, the first without the space before it, up to the
type. -/
theorem readsAt_headerPrefix (f : Function) (hcc : ∀ cc ∈ f.callingConv, CallingConvRereads cc)
    (hattrs : ∀ a ∈ f.returnAttrs, a.ReturnRereads) (linkage : Option Linkage) :
    ∀ s, (f.prefixText ++ [' ']).length + 4 < s →
      ReadsAt (headerPrefix s { name := "", ret := .void, linkage := linkage })
        (f.prefixText ++ [' ']).tail (AtType f.sig.ret)
        { name := "", ret := .void, linkage := linkage, preemption := f.preemption,
          visibility := f.visibility, dll := f.dll, callingConv := f.callingConv,
          returnAttrs := f.returnAttrs } := by
  have hlen : ((String.join (f.returnAttrs.map (" " ++ ·.render))).toList ++ [' ']).length ≤
      (f.prefixText ++ [' ']).length := by
    simp only [prefixText, List.append_assoc, List.length_append]
    omega
  simp only [prefixText, List.append_assoc]
  simp only [prefixText, List.append_assoc] at hlen
  have hspace := toList_join_space_append f.returnAttrs Attribute.render
  refine readsAt_headerPrefix_optional (fun p h => { h with preemption := p }) rfl
    (fun v _ s tail htail hrest => readsAt_headerPrefix_preemption v htail hrest)
    (optText_append_space _ _ (optText_append_space _ _ (optText_append_space _ _ hspace))) ?_
  refine readsAt_headerPrefix_optional (fun v h => { h with visibility := v }) rfl
    (fun v _ s tail htail hrest => readsAt_headerPrefix_visibility v htail hrest)
    (optText_append_space _ _ (optText_append_space _ _ hspace)) ?_
  refine readsAt_headerPrefix_optional (fun d h => { h with dll := d }) rfl
    (fun d _ s tail htail hrest => readsAt_headerPrefix_dll d htail hrest)
    (optText_append_space _ _ hspace) ?_
  refine readsAt_headerPrefix_optional (fun cc h => { h with callingConv := cc }) rfl
    (fun cc hc s tail htail hrest => readsAt_headerPrefix_callingConv (hcc cc hc) htail hrest)
    hspace ?_
  intro s hs
  exact readsAt_headerPrefix_attrs f.sig.ret f.returnAttrs _ s hattrs (by omega)

end Function

/-! ## Parameters -/

namespace Ast.Reader

variable {α β : Type} {x : Reader α} {t : List Char} {F : List Char → Prop} {a : α}

theorem ReadsAt.map {g : α → β} (h : ReadsAt x t F a) : ReadsAt (g <$> x) t F (g a) := by
  intro c r hc hr
  rw [StateT.run_map, h c r hc hr]
  rfl

/-- Skipping blanks where none stands, then reading. -/
theorem readsAt_skip_bind (hnb : ∀ r, F r → NoBlankAhead (t ++ r)) (h : ReadsAt x t F a) :
    ReadsAt (skipBlanks true >>= fun _ => x) t F a := by
  intro c r hc hr
  rw [run_bind_ok (run_skipBlanks _ _), skipBlanks_of_noBlankAhead (by rw [hc]; exact hnb r hr)]
  exact h c r hc hr

theorem readsAt_atEllipsis_miss {k : Bool → Reader α}
    (hdots : ∀ r, F r → ¬(t ++ r).take 3 = ['.', '.', '.']) (h : ReadsAt (k false) t F a) :
    ReadsAt (atEllipsis >>= k) t F a := by
  intro c r hc hr
  rw [run_bind_ok (run_atEllipsis c), hc, decide_eq_false (hdots r hr)]
  exact h c r hc hr

/-- **The mark of a variadic function closes the parameters.** -/
theorem readsAt_paramsRest_ellipsis (fuel s : Nat) :
    ReadsAt (paramsRest fuel (s + 1)) ['.', '.', '.', ')'] F ([], true) := by
  rw [paramsRest]
  refine readsAt_skip_bind (fun _ _ y hy => by cases hy; decide) ?_
  intro c r hc hr
  rw [run_bind_ok (run_atEllipsis c), hc]
  exact ReadsAt.bind (readsAt_advance_text (F := fun _ => True) ['.', '.', '.'])
    (ReadsAt.of_text_eq (ReadsAt.bind (readsAt_expect (F := fun _ => True)
      (show Cursor.isBlank ')' = false by decide) (by decide)) (ReadsAt.pure (F := F) ([], true))
      fun _ _ => trivial) (List.append_nil _)) (fun _ _ => trivial) c r hc hr

/-- Text that closes the attributes of a parameter: a comma, a closing parenthesis or a local. -/
def ParamStop (r : List Char) : Prop := ∃ ch ∈ [',', ')', '%'], r.head? = some ch

theorem ParamStop.attrEnd {r : List Char} (h : ParamStop r) : AttrEnd r := by
  obtain ⟨ch, hch, hh⟩ := h
  intro y hy
  rw [hh] at hy
  cases hy
  simp only [List.mem_cons, List.not_mem_nil, or_false] at hch
  rcases hch with rfl | rfl | rfl <;> decide

theorem skipsBlanks_paramAttrs (s : Nat) : SkipsBlanks (paramAttrs (s + 1)) := by
  rw [paramAttrs]
  exact skipsBlanks_skip_bind _

/-- **The attributes of a parameter read back**, each after a space but the first; `pad` is the
blank before a local after them. -/
theorem readsAt_paramAttrs : ∀ (attrs : List Attribute) (pad : List Char) (s : Nat),
    (∀ a ∈ attrs, a.Rereads) → (pad = [] ∨ pad = [' ']) → attrs.length < s →
    ReadsAt (paramAttrs s) ((String.join (attrs.map (" " ++ ·.render))).toList ++ pad).tail
      ParamStop attrs
  | [], pad, s, _, hpad, hs => by
    obtain ⟨s, rfl⟩ : ∃ s', s = s' + 1 := ⟨s - 1, by simp at hs; omega⟩
    have htext : ((String.join (([] : List Attribute).map (" " ++ ·.render))).toList ++ pad).tail =
        [] := by
      rcases hpad with rfl | rfl <;> rfl
    rw [htext]
    intro c r hc hr
    obtain ⟨ch, hch, hhead⟩ := hr
    rw [List.nil_append] at hc
    have hstop : ∀ y ∈ [',', ')', '%'], Cursor.isBlank y = false ∧ y ≠ ';' := forall_mem_of_all (by decide)
    rw [paramAttrs, run_bind_ok (run_skipBlanks _ _),
      Cursor.skipBlanks_of_head (by rw [hc]; exact hhead) (hstop ch hch).1 (hstop ch hch).2,
      run_bind_ok (run_peek _), hc, hhead]
    simp only [List.mem_cons, List.not_mem_nil, or_false] at hch
    rcases hch with rfl | rfl | rfl <;> rfl
  | a :: as, pad, s, ha, hpad, hs => by
    obtain ⟨s, rfl⟩ : ∃ s', s = s' + 2 := ⟨s - 2, by simp at hs; omega⟩
    have hrest := readsAt_paramAttrs as pad (s + 1) (fun a' ha' => ha a' (List.mem_cons_of_mem a ha'))
      hpad (by simp only [List.length_cons] at hs; omega)
    -- what follows the first attribute opens with a space or closes the parameter's attributes
    have hrest' : ReadsAt (paramAttrs (s + 1)) ((String.join (as.map (" " ++ ·.render))).toList ++ pad)
        ParamStop as ∧ ∀ r, ParamStop r →
          AttrEnd ((String.join (as.map (" " ++ ·.render))).toList ++ pad ++ r) := by
      cases htl : (String.join (as.map (" " ++ ·.render))).toList ++ pad with
      | nil =>
        rw [htl] at hrest
        exact ⟨hrest, fun r hr => by simpa only [List.nil_append] using hr.attrEnd⟩
      | cons y tl =>
        have hy : y = ' ' := by
          cases as with
          | nil =>
            rcases hpad with rfl | rfl
            · simp at htl
            · simp at htl; exact htl.1.symm
          | cons a' as' => simp at htl; exact htl.1.symm
        subst hy
        rw [htl, List.tail_cons] at hrest
        exact ⟨hrest.space (skipsBlanks_paramAttrs s), fun _ _ z hz => by cases hz; decide⟩
    obtain ⟨ch, tl, hrender, hb, hnot⟩ := Attribute.render_head_facts (ha a List.mem_cons_self)
    have htext : ((String.join ((a :: as).map (" " ++ ·.render))).toList ++ pad).tail =
        a.render.toList ++ ((String.join (as.map (" " ++ ·.render))).toList ++ pad) := by
      simp
    rw [htext, paramAttrs]
    refine readsAt_skip_peek (by rw [hrender]; rfl) hb (fun h => hnot (by rw [h]; simp)) ?_
    -- an attribute stands here, not what closes the attributes
    split
    · next h => exact absurd (by rw [Option.some.inj h]; simp) hnot
    · next h => exact absurd (by rw [Option.some.inj h]; simp) hnot
    · next h => exact absurd (by rw [Option.some.inj h]; simp) hnot
    · next h => cases h
    exact ReadsAt.bind (Attribute.readsAt_parseAttribute (ha a List.mem_cons_self))
      (ReadsAt.bind_pure hrest'.1) hrest'.2

/-- What follows a parameter's type, attributes and local: `)`, or `,` and the parameters
after it. -/
def paramTail (fuel s : Nat) (p : Param) : Reader (List Param × Bool) := do
  if ← tryChar ')' then return ([p], false)
  expect ','
  let (ps, variadic) ← paramsRest fuel s
  return (p :: ps, variadic)

/-- The parameter loop with what follows a parameter named. -/
theorem paramsRest_succ (fuel s : Nat) :
    paramsRest fuel (s + 1) = (skipBlanks true >>= fun _ => atEllipsis >>= fun e =>
      if e then (advance 3 >>= fun _ => expect ')' >>= fun _ => pure ([], true))
      else (parseType fuel >>= fun ty => paramAttrs s >>= fun attrs =>
        (peek >>= fun x => if x = some '%' then some <$> readLocal else pure none) >>= fun name =>
          paramTail fuel s ⟨ty, attrs, name⟩)) := by
  rw [paramsRest]
  simp only [bind_assoc]
  congr 1
  funext _
  congr 1
  funext e
  split
  · rfl
  · congr 1
    funext ty
    congr 1
    funext attrs
    congr 1
    funext x
    split <;> rfl

theorem skipsBlanks_paramsRest (fuel s : Nat) : SkipsBlanks (paramsRest fuel (s + 1)) := by
  rw [paramsRest]
  exact skipsBlanks_skip_bind _

theorem readsAt_paramTail_close (fuel s : Nat) (p : Param) :
    ReadsAt (paramTail fuel s p) [')'] F ([p], false) := by
  unfold paramTail
  exact ReadsAt.of_text_eq (ReadsAt.bind (readsAt_tryChar_hit (F := fun _ => True)
    (show Cursor.isBlank ')' = false by decide) (by decide)) (ReadsAt.pure (F := F) ([p], false))
    fun _ _ => trivial) (List.append_nil _)

theorem readsAt_paramTail_comma {fuel s : Nat} {p : Param} {rest : List Char} {ps : List Param}
    {v : Bool} (hrest : ReadsAt (paramsRest fuel s) rest F (ps, v)) :
    ReadsAt (paramTail fuel s p) (',' :: rest) F (p :: ps, v) := by
  unfold paramTail
  refine ReadsAt.of_text_eq (ReadsAt.bind (readsAt_tryChar_miss : ReadsAt (tryChar ')') [] _ false)
    (ReadsAt.bind (readsAt_expect (F := fun _ => True) (show Cursor.isBlank ',' = false by decide)
      (by decide)) (ReadsAt.of_text_eq (ReadsAt.bind hrest (ReadsAt.pure (F := F) (p :: ps, v))
        fun _ h => h) (List.append_nil _)) fun _ _ => trivial)
    fun _ _ => ⟨fun y hy => by cases hy; decide, fun h => by cases h⟩) (List.nil_append _)

end Ast.Reader

/-- A `,` or `)` ends a type written before it. -/
theorem stops_of_closer {t : Ty} {r : List Char} (h : ∃ ch ∈ [',', ')'], r.head? = some ch) :
    (∀ ch ∈ r.head?, t.continuesWith ch = false) ∧ stopsSuffixes r ∧ NoBlankAhead r := by
  obtain ⟨ch, hch, hh⟩ := h
  have hfacts : ∀ y ∈ [',', ')'], (isWordChar y = false ∧ isNameChar y = false) ∧
      Cursor.isBlank y = false ∧ y ≠ ';' ∧ y ≠ '*' ∧ y ≠ '(' := forall_mem_of_all (by decide)
  obtain ⟨⟨hw, hn⟩, hb, hs, hst, hp⟩ := hfacts ch hch
  obtain ⟨tl, rfl⟩ := List.head?_eq_some_iff.mp hh
  exact ⟨fun y hy => by cases hy; exact Ty.continuesWith_eq_false hw hn,
    stopsSuffixes_cons hb hs hst hp hw, fun y hy => by cases hy; exact ⟨hb, hs⟩⟩

/-- An attribute after a parameter's type ends it, unless it opens with the word `addrspace`. -/
theorem Attribute.stops_render {a : Attribute} (ha : a.Rereads) (hw : a.word? ≠ some "addrspace")
    {r : List Char} (hr : AttrEnd r) :
    stopsSuffixes (a.render.toList ++ r) ∧ NoBlankAhead (a.render.toList ++ r) := by
  obtain ⟨ch, tl, hrender, hch⟩ := Attribute.render_head ha
  obtain ⟨ch', tl', hrender', hb, hnot⟩ := Attribute.render_head_facts ha
  obtain ⟨rfl, rfl⟩ : ch = ch' ∧ tl = tl' := List.cons.inj (hrender.symm.trans hrender')
  have hsemi : ch ≠ ';' := fun h => hnot (by rw [h]; simp)
  have hword : (a.render.toList ++ r).takeWhile isWordChar ≠ "addrspace".toList := by
    cases hw' : a.word? with
    | none =>
      -- a quoted pair or a group: no word opens it
      have hx : isWordChar ch = false := by
        cases a with
        | keyword => cases hw'
        | align => cases hw'
        | pair key value =>
          have : ch = '"' := by
            cases value <;> simp [Attribute.render, Text.toList_quote] at hrender <;> exact hrender.1.symm
          rw [this]; decide
        | group id =>
          have : ch = '#' := by simp [Attribute.render] at hrender; exact hrender.1.symm
          rw [this]; decide
      rw [hrender, List.cons_append, List.takeWhile_cons_of_neg (by simp [hx])]
      simp
    | some w =>
      obtain ⟨rest, hrest, -, hall, hstop⟩ := Attribute.render_word ha hw'
      rw [hrest, List.append_assoc, takeWhile_append_stop (hstop r hr),
        List.takeWhile_eq_self_iff.mpr (fun x hx => hall x hx)]
      intro h
      exact hw (by rw [hw', String.toList_inj.mp h])
  rw [hrender, List.cons_append] at hword ⊢
  refine ⟨stopsSuffixes_of_head hb hsemi ?_ ?_ hword, fun x hx => by cases hx; exact ⟨hb, hsemi⟩⟩
  · rcases hch with rfl | rfl | hx
    · decide
    · decide
    · rintro rfl; exact absurd hx (by decide)
  · rcases hch with rfl | rfl | hx
    · decide
    · decide
    · rintro rfl; exact absurd hx (by decide)

namespace Function

/-- **What a parameter needs for its text to read back**: its type fits the reader's fields, its
attributes read back and the first does not open with the word `addrspace`, which the type
before it would take, and the number of its local fits 32 bits. -/
structure ParamRereads (f : Function) (p : Param) : Prop where
  ty : p.ty.fits
  attrs : ∀ a ∈ p.attrs, a.Rereads
  first : ∀ a ∈ p.attrs.head?, a.word? ≠ some "addrspace"
  ident : ∀ id, f.locals.ident p.slot = .anon id → id < bound32

theorem toList_renderParam (f : Function) (withIdent : Bool) (p : Param) :
    (f.renderParam withIdent p).toList = p.ty.render.toList ++
      ((String.join (p.attrs.map (" " ++ ·.render))).toList ++
        if withIdent then ' ' :: (f.locals.ident p.slot).render.toList else []) := by
  cases withIdent <;> simp [renderParam]

/-- The local of a parameter read where one stands, and nothing read before `,` or `)`. -/
theorem readsAt_paramName (f : Function) {p : Param} (hp : f.ParamRereads p) (withIdent : Bool)
    {G : List Char → Prop} (hG : ∀ r, G r → ∃ ch ∈ [',', ')'], r.head? = some ch) :
    ReadsAt (peek >>= fun x => if x = some '%' then some <$> readLocal else pure none)
      (if withIdent then (f.locals.ident p.slot).render.toList else []) G
      (if withIdent then some (f.locals.name p.slot) else none) := by
  cases withIdent with
  | false =>
    show ReadsAt _ [] G none
    refine readsAt_peek_bind (P := fun x => x ≠ some '%') (fun r hr he => ?_) fun x hx => ?_
    · obtain ⟨ch, hch, hhead⟩ := hG r hr
      rw [List.nil_append, hhead] at he
      cases he
      simp at hch
    · rw [if_neg hx]
      exact ReadsAt.pure _
  | true =>
    show ReadsAt _ (f.locals.ident p.slot).render.toList G (some _)
    obtain ⟨tl, htl⟩ := LocalIdent.toList_render (f.locals.ident p.slot)
    refine readsAt_peek_bind (P := fun x => x = some '%') (fun _ _ => by simp [htl]) fun x hx => ?_
    rw [if_pos hx]
    refine (ReadsAt.map (readsAt_readLocal hp.ident)).mono fun r hr y hy => ?_
    obtain ⟨ch, hch, hhead⟩ := hG r hr
    rw [hhead] at hy
    cases hy
    simp only [List.mem_cons, List.not_mem_nil, or_false] at hch
    rcases hch with rfl | rfl <;> decide

/-- **A printed parameter reads back**, and then what follows it. -/
theorem readsAt_param (f : Function) {p : Param} (hp : f.ParamRereads p) {fuel s : Nat}
    (hfuel : p.ty.readDepth + 1 ≤ fuel) (hs : p.attrs.length < s) (withIdent : Bool)
    {after : List Char} {F : List Char → Prop} {b : List Ast.Param × Bool}
    (hafter : ∀ r, F r → ∃ ch ∈ [',', ')'], (after ++ r).head? = some ch)
    (htail : ReadsAt (paramTail fuel s ⟨p.ty, p.attrs,
      if withIdent then some (f.locals.name p.slot) else none⟩) after F b) :
    ReadsAt (paramsRest fuel (s + 1)) ((f.renderParam withIdent p).toList ++ after) F b := by
  have hty := readsBack_of_fits p.ty hp.ty
  obtain ⟨ch, hch, hhead⟩ := Ty.render_head p.ty
  obtain ⟨tl, htl⟩ := List.head?_eq_some_iff.mp hhead
  have hname := readsAt_paramName f hp withIdent (G := fun r => ∃ r', r = after ++ r' ∧ F r')
    fun r ⟨r', hr, hr'⟩ => by rw [hr]; exact hafter r' hr'
  have hstop : ∀ r, F r → ParamStop ((if withIdent then (f.locals.ident p.slot).render.toList
      else []) ++ after ++ r) := by
    intro r hr
    cases withIdent with
    | false =>
      obtain ⟨ch, hch, hh⟩ := hafter r hr
      refine ⟨ch, ?_, hh⟩
      simp only [List.mem_cons, List.not_mem_nil, or_false] at hch
      rcases hch with rfl | rfl <;> decide
    | true =>
      obtain ⟨tl, htl⟩ := LocalIdent.toList_render (f.locals.ident p.slot)
      exact ⟨'%', by decide, by simp [htl]⟩
  have hrest := ReadsAt.bind (f := fun name => paramTail fuel s ⟨p.ty, p.attrs, name⟩) hname htail
    fun r hr => ⟨r, rfl, hr⟩
  rw [paramsRest_succ, toList_renderParam]
  have hhead' : ∀ r, NoBlankAhead (p.ty.render.toList ++ r) := fun r x hx => by
    rw [htl] at hx
    cases hx
    exact typeOpener_facts ch hch
  refine readsAt_skip_bind (fun r _ => by simp only [List.append_assoc]; exact hhead' _) ?_
  refine readsAt_atEllipsis_miss (fun r _ => by
    simp only [List.append_assoc]; exact take_render_ne_dots _ _) ?_
  rw [if_neg Bool.false_ne_true]
  by_cases hbare : p.attrs = [] ∧ withIdent = false
  · -- nothing after the type: it ends at the `,` or `)`
    obtain ⟨hnil, rfl⟩ := hbare
    have hpa := readsAt_paramAttrs [] [] s (fun _ h => absurd h List.not_mem_nil) (.inl rfl)
      (Nat.zero_lt_of_lt hs)
    rw [hnil] at htail hrest ⊢
    refine ReadsAt.of_text_eq (ReadsAt.bind (readsAt_parseType hty hfuel)
      (ReadsAt.bind hpa hrest hstop) fun r hr => ?_) (by simp)
    simp only [List.map_nil, String.join_nil, String.toList_empty, List.append_nil, List.tail_nil,
      List.nil_append, Bool.false_eq_true, ↓reduceIte]
    exact stops_of_closer (hafter r hr)
  · -- a space, then the attributes and the local
    have hpad : (if withIdent then [' '] else []) = [] ∨ (if withIdent then [' '] else []) = [' '] := by
      cases withIdent <;> simp
    have hpa := readsAt_paramAttrs p.attrs (if withIdent then [' '] else []) s hp.attrs hpad hs
    have htext : ((String.join (p.attrs.map (" " ++ ·.render))).toList ++
        if withIdent then ' ' :: (f.locals.ident p.slot).render.toList else []) =
        ' ' :: (((String.join (p.attrs.map (" " ++ ·.render))).toList ++
          if withIdent then [' '] else []).tail ++
          (if withIdent then (f.locals.ident p.slot).render.toList else [])) := by
      cases hattrs : p.attrs with
      | nil => cases withIdent <;> simp_all
      | cons a as => cases withIdent <;> simp
    rw [htext]
    refine ReadsAt.of_text_eq (ReadsAt.bind (readsAt_parseType_space hty hfuel)
      (ReadsAt.bind hpa hrest hstop) fun r hr => ?_) (by simp)
    -- what opens after the space is an attribute or the local
    cases hattrs : p.attrs with
    | nil =>
      cases withIdent with
      | false => exact absurd ⟨hattrs, rfl⟩ hbare
      | true =>
        obtain ⟨tl, htl⟩ := LocalIdent.toList_render (f.locals.ident p.slot)
        simp only [List.map_nil, String.join_nil, String.toList_empty, List.nil_append,
          if_true, List.tail_cons, htl, List.cons_append]
        exact ⟨stopsSuffixes_cons (by decide) (by decide) (by decide) (by decide) (by decide),
          fun y hy => by cases hy; decide⟩
    | cons a as =>
      have ha := hp.attrs a (by rw [hattrs]; exact List.mem_cons_self)
      have hfirst := hp.first a (by rw [hattrs]; rfl)
      have hend : AttrEnd (((String.join (as.map (" " ++ ·.render))).toList ++
          if withIdent then [' '] else []) ++
          ((if withIdent then (f.locals.ident p.slot).render.toList else []) ++ after ++ r)) := by
        cases as with
        | cons a' as' => intro y hy; simp at hy; rw [← hy]; decide
        | nil =>
          cases withIdent with
          | true => intro y hy; simp at hy; rw [← hy]; decide
          | false =>
            have hs := (hstop r hr).attrEnd
            simpa only [List.map_nil, String.join_nil, String.toList_empty, List.nil_append,
              Bool.false_eq_true, if_false] using hs
      have hs' := Attribute.stops_render ha hfirst hend
      have hjoin : ((String.join ((a :: as).map (" " ++ ·.render))).toList ++
          if withIdent then [' '] else []).tail = a.render.toList ++
            ((String.join (as.map (" " ++ ·.render))).toList ++ if withIdent then [' '] else []) := by
        simp
      rw [hjoin, List.append_assoc, List.append_assoc]
      simpa only [List.append_assoc] using hs'

/-- **The parameters after the first `(` read back**, up to the `)`, with the mark of a
variadic function before it. -/
theorem readsAt_paramsRest (f : Function) (w : Param → Bool) {fuel : Nat} (v : Bool) :
    ∀ (ps : List Param) (s : Nat), ps ≠ [] →
      (∀ p ∈ ps, f.ParamRereads p ∧ p.ty.readDepth + 1 ≤ fuel ∧ p.attrs.length + ps.length < s) →
      ReadsAt (paramsRest fuel s)
        ((", ".intercalate (ps.map fun p => f.renderParam (w p) p)).toList ++
          ((if v then ", ..." else "").toList ++ [')']))
        (fun _ => True)
        (ps.map fun p => ⟨p.ty, p.attrs, if w p then some (f.locals.name p.slot) else none⟩, v)
  | [], _, hne, _ => absurd rfl hne
  | [p], s, _, hp => by
    obtain ⟨hpr, hfuel, hs⟩ := hp p List.mem_cons_self
    simp only [List.length_singleton] at hs
    obtain ⟨s, rfl⟩ : ∃ s', s = s' + 2 := ⟨s - 2, by omega⟩
    rw [List.map_singleton, String.intercalate_singleton]
    cases v with
    | false =>
      exact readsAt_param f hpr hfuel (by omega) (w p) (fun _ _ => ⟨')', by decide, rfl⟩)
        (readsAt_paramTail_close fuel (s + 1) _)
    | true =>
      -- the parameter, then `, ...)`
      refine ReadsAt.of_text_eq (readsAt_param f hpr hfuel (by omega) (w p)
        (fun _ _ => ⟨',', by decide, rfl⟩) (readsAt_paramTail_comma
          ((readsAt_paramsRest_ellipsis fuel s).space (skipsBlanks_paramsRest fuel s)))) ?_
      simp
  | p :: q :: ps, s, _, hp => by
    obtain ⟨hpr, hfuel, hs⟩ := hp p List.mem_cons_self
    simp only [List.length_cons] at hs
    obtain ⟨s, rfl⟩ : ∃ s', s = s' + 2 := ⟨s - 2, by omega⟩
    have ih := readsAt_paramsRest f w v (q :: ps) (s + 1) (List.cons_ne_nil _ _) fun p' hp' => by
      obtain ⟨h₁, h₂, h₃⟩ := hp p' (List.mem_cons_of_mem p hp')
      simp only [List.length_cons] at h₃ ⊢
      exact ⟨h₁, h₂, by omega⟩
    -- the first parameter, then `, ` and the others
    refine ReadsAt.of_text_eq (readsAt_param f hpr hfuel (by omega) (w p)
      (fun _ _ => ⟨',', by decide, rfl⟩)
      (readsAt_paramTail_comma (ih.space (skipsBlanks_paramsRest fuel s)))) ?_
    simp [String.intercalate_cons_cons]

/-- **A printed parameter list reads back**: the parameters and whether the function is variadic. -/
theorem readsAt_parseParams (f : Function) (w : Param → Bool) {fuel s : Nat} (v : Bool)
    (ps : List Param) (hs : 0 < s)
    (hps : ∀ p ∈ ps, f.ParamRereads p ∧ p.ty.readDepth + 1 ≤ fuel ∧ p.attrs.length + ps.length < s) :
    ReadsAt (parseParams fuel s)
      ('(' :: ((", ".intercalate (ps.map fun p => f.renderParam (w p) p)).toList ++
        ((if v then (if ps.isEmpty then "..." else ", ...") else "").toList ++ [')'])))
      (fun _ => True)
      (ps.map fun p => ⟨p.ty, p.attrs, if w p then some (f.locals.name p.slot) else none⟩, v) := by
  obtain ⟨s, rfl⟩ : ∃ s', s = s' + 1 := ⟨s - 1, by omega⟩
  unfold parseParams
  refine ReadsAt.bind (readsAt_expect (F := fun _ => True)
    (show Cursor.isBlank '(' = false by decide) (by decide)) ?_ fun _ _ => trivial
  cases ps with
  | nil =>
    cases v with
    | false =>
      -- `()`
      exact ReadsAt.of_text_eq (ReadsAt.bind (readsAt_tryChar_hit (F := fun _ => True)
        (show Cursor.isBlank ')' = false by decide) (by decide)) (ReadsAt.pure ([], false))
        fun _ _ => trivial) (by simp)
    | true =>
      -- `(...)`
      exact ReadsAt.of_text_eq (ReadsAt.bind (readsAt_tryChar_miss : ReadsAt (tryChar ')') [] _ false)
        (readsAt_paramsRest_ellipsis fuel s) fun _ _ => ⟨fun y hy => by cases hy; decide,
          fun h => by cases h⟩) (by simp)
  | cons p ps =>
    obtain ⟨ch, hch, hhead⟩ := Ty.render_head p.ty
    obtain ⟨tl, htl⟩ := List.head?_eq_some_iff.mp hhead
    have hloop := readsAt_paramsRest f w v (p :: ps) (s + 1) (List.cons_ne_nil _ _) hps
    refine ReadsAt.of_text_eq (ReadsAt.bind (readsAt_tryChar_miss : ReadsAt (tryChar ')') [] _ false)
      hloop fun r _ => ?_) (by cases v <;> simp)
    -- a parameter opens with its type, not with `)`
    have hfirst : ((", ".intercalate ((p :: ps).map fun p => f.renderParam (w p) p)).toList ++
        ((if v then ", ..." else "").toList ++ [')']) ++ r).head? = some ch := by
      cases ps <;> simp [String.intercalate_cons_cons, toList_renderParam, htl]
    refine ⟨fun y hy => ?_, fun h => ?_⟩
    · rw [hfirst] at hy
      cases hy
      exact typeOpener_facts ch hch
    · rw [hfirst] at h
      cases h
      exact absurd hch (by decide)

end Function

end LlvmAsm
