import LlvmAsm.Proofs.Reading.Tokens
import LlvmAsm.Ast.Grammar.Type
import LlvmAsm.Proofs.TypeAliases

/-!
# `Proofs.Reading.Types` — reading the text of a type gives the type back

`Ty.render` writes a type and `Reader.parseType` reads one. Reading goes left to right: after a
base type the reader keeps applying `*`, `addrspace(N)*` and parameter lists while it finds them on
the line. Reading the text of `t` therefore gives `t` back exactly when the text after it does not
extend it:

* its first character does not continue the last word or bare name of the text
  (`Ty.continuesWith`): the text of `i8` followed by `1` reads as `i81`
  (`width_digits_continue_type`);
* after the blanks and the comment the reader skips on the line, it does not go on with `*`, `(`
  or the word `addrspace` (`Reader.stopsSuffixes`).

The numbers of `t` must also fit the fields the reader reads them into (`Ty.fits`), and the reader
needs recursion depth `t.readDepth`, which `Reader.fuelFor` always gives.

`ReadsBack t` says that reading at the text of `t` ends in the suffix loop with `t` read, the
cursor right after the text and enough depth left. Each `readsBack_*` lemma derives it for one
constructor from its parts, and `readsBack_of_fits` assembles them by recursion on the type.
Main statement: `parseType_reads_render`, for every type that lowering accepts.
-/

namespace LlvmAsm

namespace Ty

mutual

/-- Whether the numbers of a type fit the fields the reader reads them into: widths and address
spaces below `2^32`, lengths below `2^64`. -/
def fits : Ty → Bool
  | .int bits => decide (bits < Ast.Reader.bound32)
  | .pointer elem space => elem.fits && decide (space < Ast.Reader.bound32)
  | .array len elem => decide (len < Ast.Reader.bound64) && elem.fits
  | .vector len elem => decide (len < Ast.Reader.bound64) && elem.fits
  | .struct _ fields => fitsList fields
  | .func ret params _ => ret.fits && fitsList params
  | .void | .float _ | .label | .token | .named _ => true

/-- Whether every type of a list fits. -/
def fitsList : List Ty → Bool
  | [] => true
  | t :: ts => t.fits && fitsList ts

end

mutual

/-- The depth of recursion reading the text of a type takes: the fuel `Reader.parseType` needs. -/
def readDepth : Ty → Nat
  | .pointer elem _ => elem.readDepth + 1
  | .array _ elem => elem.readDepth + 2
  | .vector _ elem => elem.readDepth + 2
  | .struct _ fields => readDepthList fields + 3
  | .func ret params _ => ret.readDepth + readDepthList params + 3
  | .void | .int _ | .float _ | .label | .token | .named _ => 1

/-- The depth of recursion reading a list of types takes. -/
def readDepthList : List Ty → Nat
  | [] => 0
  | t :: ts => t.readDepth + 1 + readDepthList ts

end

theorem readDepth_pos (t : Ty) : 1 ≤ t.readDepth := by
  cases t <;> simp [readDepth]

/-- Whether a character written right after the text of a type would be read as part of it. The
text of a scalar type ends in a word (`i32`, `void`), which a word character continues, and that of
a bare type name in a name, which a name character continues; every other text ends in a bracket,
`*` or a quote. -/
def continuesWith : Ty → Char → Bool
  | .void, ch | .int _, ch | .float _, ch | .label, ch | .token, ch => Ast.isWordChar ch
  | .named name, ch => Text.isBare name && Ast.isNameChar ch
  | .pointer .., _ | .array .., _ | .vector .., _ | .struct .., _ | .func .., _ => false

/-- No type is continued by a character that continues neither a word nor a name. -/
theorem continuesWith_eq_false {t : Ty} {ch : Char} (hw : Ast.isWordChar ch = false)
    (hn : Ast.isNameChar ch = false) : t.continuesWith ch = false := by
  cases t <;> simp [continuesWith, hw, hn]

/-- The characters the text of a type can start with. -/
def openers : List Char := ['v', 'i', 'h', 'f', 'd', 'l', 't', '%', '[', '<', '{']

/-- The text of a type starts with one of the `openers`. -/
theorem render_head : ∀ t : Ty, ∃ ch ∈ openers, t.render.toList.head? = some ch
  | .pointer elem _ => by
    obtain ⟨ch, ho, h⟩ := render_head elem
    exact ⟨ch, ho, by simp [render, List.head?_append, h]⟩
  | .func ret _ _ => by
    obtain ⟨ch, ho, h⟩ := render_head ret
    exact ⟨ch, ho, by simp [render, List.head?_append, h]⟩
  | .float .half => ⟨'h', by decide, rfl⟩
  | .float .float => ⟨'f', by decide, rfl⟩
  | .float .double => ⟨'d', by decide, rfl⟩
  | .struct false [] => ⟨'{', by decide, rfl⟩
  | .struct false (_ :: _) => ⟨'{', by decide, by simp [render]⟩
  | .struct true fields => ⟨'<', by decide, by cases fields <;> simp [render]⟩
  | .void => ⟨'v', by decide, rfl⟩
  | .int _ => ⟨'i', by decide, by simp [render]⟩
  | .array .. => ⟨'[', by decide, by simp [render]⟩
  | .vector .. => ⟨'<', by decide, by simp [render]⟩
  | .label => ⟨'l', by decide, rfl⟩
  | .token => ⟨'t', by decide, rfl⟩
  | .named _ => ⟨'%', by decide, by simp [render, Text.localName]⟩

end Ty

namespace Ast.Reader

open Ty

/-- Whether a text ends a type where it starts: after the blanks and the comment the reader skips
on the line, nothing extends the type, no `*`, no `(` and no word `addrspace`. -/
def stopsSuffixes (text : List Char) : Bool :=
  match (Cursor.skipBlanksFrom false false text 0).rest with
  | '*' :: _ | '(' :: _ => false
  | r => r.takeWhile isWordChar != "addrspace".toList

/-- Where skipping blanks stops does not depend on the offset it starts from. -/
theorem rest_skipBlanksFrom (nl ic : Bool) (cs : List Char) (p q : Nat) :
    (Cursor.skipBlanksFrom nl ic cs p).rest = (Cursor.skipBlanksFrom nl ic cs q).rest := by
  induction cs generalizing ic p q with
  | nil => rfl
  | cons ch cs ih =>
    unfold Cursor.skipBlanksFrom
    -- each branch either stops at this character or goes on with the tail
    split_ifs <;> first | rfl | apply ih

theorem run_wordAt_eq (c : Cursor) : wordAt.run c =
    .ok (if (c.rest.takeWhile isWordChar).isEmpty then none
      else some (String.ofList (c.rest.takeWhile isWordChar)), c) := rfl

/-- **The suffix loop stops** where the text does not go on with a suffix, after skipping the
blanks on the line. -/
theorem typeSuffixes_stop {g : Nat} {t : Ty} {c : Cursor} (h : stopsSuffixes c.rest) :
    (typeSuffixes (g + 1) t).run c = .ok (t, c.skipBlanks false) := by
  have hr : (c.skipBlanks false).rest = (Cursor.skipBlanksFrom false false c.rest 0).rest :=
    rest_skipBlanksFrom _ _ _ _ _
  unfold stopsSuffixes at h
  rw [← hr] at h
  rw [typeSuffixes, run_bind_ok (run_skipBlanks _ _), run_bind_ok (run_peek _)]
  generalize c.skipBlanks false = c' at h ⊢
  split at h
  case h_1 | h_2 => exact absurd h Bool.false_ne_true
  case h_3 hstar hparen =>
    have hword : (if (c'.rest.takeWhile isWordChar).isEmpty then none
        else some (String.ofList (c'.rest.takeWhile isWordChar))) ≠ some "addrspace" := by
      split
      · exact Option.some_ne_none _ ∘ Eq.symm
      · intro heq
        have := congrArg String.toList (Option.some.inj heq)
        rw [String.toList_ofList] at this
        exact absurd this (by simpa using h)
    split
    · next heq => exact absurd heq (by cases hc : c'.rest <;> simp_all)
    · next heq => exact absurd heq (by cases hc : c'.rest <;> simp_all)
    · rw [run_bind_ok (run_wordAt_eq _), if_neg hword]
      rfl

/-- A character that is not blank, not `;`, not `*` or `(` and not a word character stops the
suffix loop. -/
theorem stopsSuffixes_cons {ch : Char} {r : List Char} (hb : Cursor.isBlank ch = false)
    (hs : ch ≠ ';') (hstar : ch ≠ '*') (hparen : ch ≠ '(') (hw : isWordChar ch = false) :
    stopsSuffixes (ch :: r) := by
  rw [stopsSuffixes, Cursor.skipBlanksFrom, if_neg Bool.false_ne_true, if_neg hs, hb,
    if_neg Bool.false_ne_true]
  split
  · next heq => exact absurd (List.cons.inj heq).1 hstar
  · next heq => exact absurd (List.cons.inj heq).1 hparen
  · simp [hw]

/-- A space before the text changes nothing for the suffix loop. -/
theorem stopsSuffixes_space (r : List Char) : stopsSuffixes (' ' :: r) = stopsSuffixes r := by
  have h : (Cursor.skipBlanksFrom false false (' ' :: r) 0).rest =
      (Cursor.skipBlanksFrom false false r 0).rest := by
    rw [Cursor.skipBlanksFrom]
    simp only [Bool.false_eq_true, if_false, Cursor.isBlank]
    exact rest_skipBlanksFrom _ _ _ _ _
  simp only [stopsSuffixes, h]

/-- Reading a type skips blanks first, so a space before it changes nothing. -/
theorem parseType_space {f : Nat} {c : Cursor} {r : List Char} (hc : c.rest = ' ' :: r) :
    (parseType (f + 1)).run c = (parseType (f + 1)).run (c.advance 1) := by
  rw [parseType, run_bind_ok (run_skipBlanks _ _), run_bind_ok (run_skipBlanks _ _),
    Cursor.skipBlanks_space hc]

/-- Reading at the text of `t`, followed by text that does not continue its last word or name,
ends in the suffix loop with `t` read and the cursor right after the text, with all but
`t.readDepth` of the fuel left. -/
def ReadsBack (t : Ty) : Prop :=
  ∀ (fuel : Nat) (c : Cursor) (rest : List Char), t.readDepth ≤ fuel →
    c.rest = t.render.toList ++ rest → (∀ ch ∈ rest.head?, t.continuesWith ch = false) →
    ∃ g, fuel ≤ g + t.readDepth ∧
      (parseType fuel).run c = (typeSuffixes g t).run (c.advance t.render.length)

/-- **A type read back where the text stops it**: with one more level of fuel than the type
needs, reading gives the type and leaves the cursor after the blanks that follow on the line. -/
theorem ReadsBack.run_eq_ok {t : Ty} (h : ReadsBack t) {fuel : Nat} {c : Cursor}
    {rest : List Char} (hf : t.readDepth + 1 ≤ fuel) (hc : c.rest = t.render.toList ++ rest)
    (hglue : ∀ ch ∈ rest.head?, t.continuesWith ch = false) (hstop : stopsSuffixes rest) :
    (parseType fuel).run c = .ok (t, (c.advance t.render.length).skipBlanks false) := by
  have hd : t.readDepth ≤ fuel := by omega
  obtain ⟨g, hg, heq⟩ := h fuel c rest hd hc hglue
  obtain ⟨g, rfl⟩ : ∃ g', g = g' + 1 := ⟨g - 1, by omega⟩
  have hrest : (c.advance t.render.length).rest = rest := Cursor.rest_advance_append _ hc
  rw [heq, typeSuffixes_stop (by rw [hrest]; exact hstop)]

/-! ## Scalar types -/

/-- The letters the text of a scalar type starts with. -/
def letterOpeners : List Char := ['v', 'i', 'h', 'f', 'd', 'l', 't']

theorem skipBlanks_of_letter {c : Cursor} {ch : Char} (hch : ch ∈ letterOpeners)
    (hhead : c.rest.head? = some ch) (nl : Bool) : c.skipBlanks nl = c := by
  have hletter : ∀ x ∈ letterOpeners, Cursor.isBlank x = false ∧ x ≠ ';' :=
    forall_mem_of_all (by decide)
  exact Cursor.skipBlanks_of_head hhead (hletter ch hch).1 (hletter ch hch).2 nl

/-- A type that starts with a letter is read as a scalar type. -/
theorem parseType_letter {f : Nat} {c : Cursor} {ch : Char} (hch : ch ∈ letterOpeners)
    (hhead : c.rest.head? = some ch) :
    (parseType (f + 1)).run c = (scalarType >>= typeSuffixes f).run c := by
  rw [parseType, run_bind_ok (run_skipBlanks _ _), skipBlanks_of_letter hch hhead,
    run_bind_ok (run_peek _), hhead]
  simp only [letterOpeners, List.mem_cons, List.not_mem_nil, or_false] at hch
  rcases hch with rfl | rfl | rfl | rfl | rfl | rfl | rfl <;>
    simp only [Option.some.injEq, Char.reduceEq, imp_self, StateT.run_bind]

/-- A scalar type reads back when `scalarType` reads its keyword back. -/
theorem readsBack_scalar {t : Ty} (hd : t.readDepth = 1)
    (hhead : ∃ ch ∈ letterOpeners, t.render.toList.head? = some ch)
    (hword : ∀ x ∈ t.render.toList, isWordChar x) (hglue : ∀ ch, t.continuesWith ch = isWordChar ch)
    (hscalar : ∀ c : Cursor, WordAt (c.skipBlanks true).rest t.render.toList →
      scalarType.run c = .ok (t, (c.skipBlanks true).advance t.render.length)) :
    ReadsBack t := by
  intro fuel c rest hf hc hrest
  obtain ⟨f, rfl⟩ : ∃ f, fuel = f + 1 := ⟨fuel - 1, by omega⟩
  obtain ⟨ch, hch, hh⟩ := hhead
  have hne : t.render.toList ≠ [] := fun h => by simp [h] at hh
  have hc' : c.rest.head? = some ch := by rw [hc, List.head?_append, hh]; rfl
  have hskip := skipBlanks_of_letter hch hc' true
  have hw : WordAt (c.skipBlanks true).rest t.render.toList :=
    WordAt.of_append (by rw [hskip]; exact hc) hne hword fun x hx => by rw [← hglue]; exact hrest x hx
  refine ⟨f, by omega, ?_⟩
  rw [parseType_letter hch hc', run_bind_ok (hscalar c hw), hskip]

theorem readsBack_void : ReadsBack .void :=
  readsBack_scalar rfl ⟨'v', by decide, rfl⟩ (forall_mem_of_all (by decide)) (fun _ => rfl) fun c h => by
    rw [scalarType, run_bind_ok (run_readWord h), String.ofList_toList]
    rfl

theorem readsBack_label : ReadsBack .label :=
  readsBack_scalar rfl ⟨'l', by decide, rfl⟩ (forall_mem_of_all (by decide)) (fun _ => rfl) fun c h => by
    rw [scalarType, run_bind_ok (run_readWord h), String.ofList_toList]
    rfl

theorem readsBack_token : ReadsBack .token :=
  readsBack_scalar rfl ⟨'t', by decide, rfl⟩ (forall_mem_of_all (by decide)) (fun _ => rfl) fun c h => by
    rw [scalarType, run_bind_ok (run_readWord h), String.ofList_toList]
    rfl

theorem readsBack_float (k : FloatKind) : ReadsBack (.float k) := by
  refine readsBack_scalar rfl ?_ ?_ (fun _ => rfl) fun c h => ?_
  · cases k <;> exact ⟨_, by decide, rfl⟩
  · cases k <;> exact forall_mem_of_all (by decide)
  · rw [scalarType, run_bind_ok (run_readWord h), String.ofList_toList]
    cases k <;> rfl

/-- The text of a width read as a scalar type gives the integer type. -/
theorem run_scalarType_int {bits : Nat} {c : Cursor}
    (h : WordAt (c.skipBlanks true).rest (Ty.int bits).render.toList) (hb : bits < bound32) :
    scalarType.run c = .ok (.int bits, (c.skipBlanks true).advance (Ty.int bits).render.length) := by
  have hlist : (Ty.int bits).render.toList = 'i' :: (toString bits).toList := by simp [Ty.render]
  have hkey : isTypeKeyword (Ty.int bits).render := by
    have := isDigitChar_of_toString (n := bits)
    rw [isTypeKeyword, hlist]
    simp_all [List.all_eq_true]
  have hval : digitsValue ((Ty.int bits).render.toList.drop 1) = bits := by
    rw [hlist, List.drop_one, List.tail_cons, digitsValue_toString]
  rw [scalarType, run_bind_ok (run_readWord h), String.ofList_toList]
  -- the text starts with `i`, so it is none of the other keywords
  split
  case h_7 =>
    simp only [hkey, hval, if_pos hb, if_true]
    rfl
  all_goals exact absurd (congrArg (fun s : String => s.toList.head?) ‹_›) (by simp [Ty.render])

theorem readsBack_int {bits : Nat} (hb : bits < bound32) : ReadsBack (.int bits) := by
  have hlist : (Ty.int bits).render.toList = 'i' :: (toString bits).toList := by simp [Ty.render]
  have hword : ∀ x ∈ (Ty.int bits).render.toList, isWordChar x := by
    rw [hlist]
    rintro x (_ | ⟨_, hx⟩)
    · decide
    · exact isWordChar_of_isDigitChar (isDigitChar_of_toString x hx)
  exact readsBack_scalar rfl ⟨'i', by decide, by rw [hlist]; rfl⟩ hword (fun _ => rfl)
    fun c h => run_scalarType_int h hb

/-- A type name is read as the name, bare or quoted. -/
theorem readsBack_named (name : String) : ReadsBack (.named name) := by
  intro fuel c rest hf hc hglue
  obtain ⟨f, rfl⟩ : ∃ f, fuel = f + 1 := ⟨fuel - 1, by simp [Ty.readDepth] at hf; omega⟩
  refine ⟨f, by simp [Ty.readDepth], ?_⟩
  have hlocal : (Ty.named name).render = Text.localName name := rfl
  have hhead : c.rest.head? = some '%' := by
    rw [hc, hlocal, Text.localName, String.toList_append]
    rfl
  have hskip : c.skipBlanks true = c := Cursor.skipBlanks_of_head hhead (by decide) (by decide) _
  have hr : Text.isBare name → ∀ x ∈ rest.head?, isNameChar x = false := fun hb x hx => by
    simpa [Ty.continuesWith, hb] using hglue x hx
  rw [parseType, run_bind_ok (run_skipBlanks _ _), hskip, run_bind_ok (run_peek _), hhead]
  simp only
  rw [run_bind_ok (run_readLocal (by rw [hskip, ← hlocal]; exact hc) hr), hskip, hlocal]
  rfl

/-! ## Pointers, arrays and vectors -/

/-- What the text of a pointer adds after its element type. -/
def pointerSuffix (space : Nat) : String :=
  (if space = 0 then "" else " addrspace(" ++ toString space ++ ")") ++ "*"

theorem render_pointer (elem : Ty) (space : Nat) :
    (Ty.pointer elem space).render = elem.render ++ pointerSuffix space := by
  simp only [Ty.render, pointerSuffix, String.append_assoc]

theorem toList_pointerSuffix (space : Nat) : (pointerSuffix space).toList =
    if space = 0 then ['*']
    else ' ' :: "addrspace".toList ++ '(' :: (toString space).toList ++ [')', '*'] := by
  unfold pointerSuffix
  split <;> simp

/-- A pointer is read as its element type and then the pointer suffix. -/
theorem readsBack_pointer {elem : Ty} {space : Nat} (hspace : space < bound32)
    (he : ReadsBack elem) : ReadsBack (.pointer elem space) := by
  intro fuel c rest hf hc _
  have hd : elem.readDepth ≤ fuel := by simp only [Ty.readDepth] at hf; omega
  rw [render_pointer] at hc ⊢
  rw [String.toList_append, List.append_assoc] at hc
  have hglue : ∀ ch ∈ ((pointerSuffix space).toList ++ rest).head?,
      elem.continuesWith ch = false := by
    intro ch hch
    rw [toList_pointerSuffix] at hch
    split at hch <;> cases hch <;> exact Ty.continuesWith_eq_false (by decide) (by decide)
  obtain ⟨g, hg, heq⟩ := he fuel c _ hd hc hglue
  obtain ⟨g, rfl⟩ : ∃ g', g = g' + 1 := ⟨g - 1, by simp only [Ty.readDepth] at hf; omega⟩
  refine ⟨g, by simp only [Ty.readDepth]; omega, ?_⟩
  have h1 : (c.advance elem.render.length).rest = (pointerSuffix space).toList ++ rest :=
    Cursor.rest_advance_append _ hc
  rw [heq, String.length_append, ← Cursor.advance_advance]
  generalize c.advance elem.render.length = c1 at h1 ⊢
  rw [toList_pointerSuffix] at h1
  rw [typeSuffixes, run_bind_ok (run_skipBlanks _ _)]
  by_cases hs : space = 0
  · -- `*`
    subst hs
    rw [if_pos rfl] at h1
    have hhead : c1.rest.head? = some '*' := by rw [h1]; rfl
    rw [Cursor.skipBlanks_of_head hhead (by decide) (by decide), run_bind_ok (run_peek _), hhead]
    simp only
    rw [run_bind_ok (run_advance _ _)]
    rfl
  · -- ` addrspace(N)*`
    rw [if_neg hs] at h1
    have hsp : c1.rest = ' ' :: ("addrspace".toList ++ '(' :: ((toString space).toList ++
        ')' :: '*' :: rest)) := by rw [h1]; simp
    have h2 : (c1.advance 1).rest =
        "addrspace".toList ++ '(' :: ((toString space).toList ++ ')' :: '*' :: rest) :=
      Cursor.rest_advance_append [' '] hsp
    have h3 : ((c1.advance 1).advance 9).rest =
        '(' :: ((toString space).toList ++ ')' :: '*' :: rest) :=
      Cursor.rest_advance_append _ h2
    have h4 : (((c1.advance 1).advance 9).advance 1).rest =
        (toString space).toList ++ ')' :: '*' :: rest :=
      Cursor.rest_advance_append ['('] h3
    have h5 : ((((c1.advance 1).advance 9).advance 1).advance (toString space).length).rest =
        ')' :: '*' :: rest :=
      Cursor.rest_advance_append _ h4
    have h6 : (((((c1.advance 1).advance 9).advance 1).advance (toString space).length).advance 1).rest =
        '*' :: rest :=
      Cursor.rest_advance_append [')'] h5
    have hword : WordAt (c1.advance 1).rest "addrspace".toList :=
      WordAt.of_append h2 (by decide) (forall_mem_of_all (by decide)) (by intro x hx; cases hx; decide)
    have hlen : (pointerSuffix space).length = 1 + 9 + 1 + (toString space).length + 1 + 1 := by
      rw [← String.length_toList, toList_pointerSuffix, if_neg hs]
      simp only [List.length_cons, List.length_append, List.length_nil, String.length_toList,
        show "addrspace".length = 9 from rfl]
      omega
    rw [Cursor.skipBlanks_space hsp, Cursor.skipBlanks_of_head (by rw [h2]; rfl) (by decide) (by decide),
      run_bind_ok (run_peek _), show (c1.advance 1).rest.head? = some 'a' by rw [h2]; rfl]
    simp only [Option.some.injEq, Char.reduceEq, imp_self]
    rw [run_bind_ok (run_wordAt hword), String.ofList_toList, if_pos rfl,
      run_bind_ok (run_advance _ _), run_bind_ok (run_expect_at h3 (by decide) (by decide)),
      run_bind_ok (run_readNumber_at h4 (by intro x hx; cases hx; decide) hspace),
      run_bind_ok (run_expect_at h5 (by decide) (by decide)),
      run_bind_ok (run_expect_at h6 (by decide) (by decide)), hlen]
    simp only [Cursor.advance_advance]

/-- A closing bracket of a type ends the element before it. -/
theorem closer_facts : ∀ x ∈ [']', '>', '}', ')', ','], Cursor.isBlank x = false ∧ x ≠ ';' ∧
    x ≠ '*' ∧ x ≠ '(' ∧ isWordChar x = false ∧ isNameChar x = false :=
  forall_mem_of_all (by decide)

/-- Reading a type at the text of `elem` followed by a closing bracket gives `elem`, with the
cursor at the bracket. -/
theorem ReadsBack.run_closed {elem : Ty} (he : ReadsBack elem) {f : Nat} {c : Cursor}
    {close : Char} {rest : List Char} (hclose : close ∈ [']', '>', '}', ')', ','])
    (hf : elem.readDepth + 1 ≤ f) (hc : c.rest = elem.render.toList ++ close :: rest) :
    (parseType f).run c = .ok (elem, c.advance elem.render.length) := by
  obtain ⟨hb, hs, hstar, hparen, hw, hn⟩ := closer_facts close hclose
  have hafter : (c.advance elem.render.length).rest = close :: rest :=
    Cursor.rest_advance_append _ hc
  rw [he.run_eq_ok hf hc (fun ch hch => by cases hch; exact Ty.continuesWith_eq_false hw hn)
    (stopsSuffixes_cons hb hs hstar hparen hw),
    Cursor.skipBlanks_of_head (by rw [hafter]; rfl) hb hs]

/-- The part `N x elem` of an array or vector type, up to its closing bracket, is read as the
length and the element type. -/
theorem run_sized {β : Type} {len f : Nat} {elem : Ty} {close : Char} {k : Nat → Ty → Reader β}
    {c : Cursor} {rest : List Char} (hlen : len < bound64) (he : ReadsBack elem)
    (hf : elem.readDepth + 1 ≤ f) (hclose : close ∈ [']', '>'])
    (hc : c.rest = (toString len).toList ++ ' ' :: 'x' :: ' ' :: (elem.render.toList ++ close :: rest)) :
    (do
        let n ← readNumber bound64
        expectWord "x"
        let e ← parseType f
        expect close
        k n e).run c =
      (k len elem).run (c.advance ((toString len).length + 3 + elem.render.length + 1)) := by
  obtain ⟨f, rfl⟩ : ∃ f', f = f' + 1 := ⟨f - 1, by omega⟩
  have hcl : close ∈ [']', '>', '}', ')', ','] := by
    simp only [List.mem_cons, List.not_mem_nil, or_false] at hclose
    rcases hclose with rfl | rfl <;> decide
  obtain ⟨hb, hs, -, -, -, -⟩ := closer_facts close hcl
  have h1 : (c.advance (toString len).length).rest = ' ' :: 'x' :: ' ' ::
      (elem.render.toList ++ close :: rest) := Cursor.rest_advance_append _ hc
  have h2 : ((c.advance (toString len).length).advance 1).rest =
      'x' :: ' ' :: (elem.render.toList ++ close :: rest) := Cursor.rest_advance_append [' '] h1
  have h3 : (((c.advance (toString len).length).advance 1).advance 1).rest =
      ' ' :: (elem.render.toList ++ close :: rest) := Cursor.rest_advance_append ['x'] h2
  have h4 : ((((c.advance (toString len).length).advance 1).advance 1).advance 1).rest =
      elem.render.toList ++ close :: rest := Cursor.rest_advance_append [' '] h3
  have h5 : (((((c.advance (toString len).length).advance 1).advance 1).advance 1).advance
      elem.render.length).rest = close :: rest := Cursor.rest_advance_append _ h4
  have hskip : (c.advance (toString len).length).skipBlanks true =
      (c.advance (toString len).length).advance 1 := by
    rw [Cursor.skipBlanks_space h1, Cursor.skipBlanks_of_head (by rw [h2]; rfl) (by decide) (by decide)]
  have hx : WordAt ((c.advance (toString len).length).skipBlanks true).rest "x".toList := by
    rw [hskip]
    exact WordAt.of_append h2 (by decide) (forall_mem_of_all (by decide))
      (by intro x hx; cases hx; decide)
  have helem : (parseType (f + 1)).run (((c.advance (toString len).length).advance 1).advance 1) =
      .ok (elem, ((((c.advance (toString len).length).advance 1).advance 1).advance 1).advance
        elem.render.length) := by
    rw [parseType_space h3]
    exact he.run_closed hcl (by omega) h4
  rw [run_bind_ok (run_readNumber_at hc (by intro x hx; cases hx; decide) hlen),
    run_bind_ok (run_expectWord hx), hskip, show "x".length = 1 from rfl, run_bind_ok helem,
    run_bind_ok (run_expect_at h5 hb hs)]
  simp only [Cursor.advance_advance]

theorem readsBack_array {len : Nat} {elem : Ty} (hlen : len < bound64) (he : ReadsBack elem) :
    ReadsBack (.array len elem) := by
  intro fuel c rest hf hc _
  obtain ⟨f, rfl⟩ : ∃ f, fuel = f + 1 := ⟨fuel - 1, by simp only [Ty.readDepth] at hf; omega⟩
  refine ⟨f, by simp only [Ty.readDepth]; omega, ?_⟩
  have htext : (Ty.array len elem).render.toList = '[' :: ((toString len).toList ++
      ' ' :: 'x' :: ' ' :: (elem.render.toList ++ [']'])) := by simp [Ty.render]
  have hhead : c.rest.head? = some '[' := by rw [hc, htext]; rfl
  have h1 : (c.advance 1).rest = (toString len).toList ++ ' ' :: 'x' :: ' ' ::
      (elem.render.toList ++ ']' :: rest) := Cursor.rest_advance_append ['['] (by rw [hc, htext]; simp)
  rw [parseType, run_bind_ok (run_skipBlanks _ _), Cursor.skipBlanks_of_head hhead (by decide) (by decide),
    run_bind_ok (run_peek _), hhead]
  simp only
  rw [run_bind_ok (run_advance _ _), run_sized (f := f) hlen he
    (by simp only [Ty.readDepth] at hf; omega) (by decide) h1, run_bind_ok (run_pure _ _),
    Cursor.advance_advance, ← String.length_toList (s := (Ty.array len elem).render), htext]
  simp only [List.length_cons, List.length_append, List.length_nil, String.length_toList]
  congr 2
  omega

theorem readsBack_vector {len : Nat} {elem : Ty} (hlen : len < bound64) (he : ReadsBack elem) :
    ReadsBack (.vector len elem) := by
  intro fuel c rest hf hc _
  obtain ⟨f, rfl⟩ : ∃ f, fuel = f + 1 := ⟨fuel - 1, by simp only [Ty.readDepth] at hf; omega⟩
  refine ⟨f, by simp only [Ty.readDepth]; omega, ?_⟩
  have htext : (Ty.vector len elem).render.toList = '<' :: ((toString len).toList ++
      ' ' :: 'x' :: ' ' :: (elem.render.toList ++ ['>'])) := by simp [Ty.render]
  have hhead : c.rest.head? = some '<' := by rw [hc, htext]; rfl
  have h1 : (c.advance 1).rest = (toString len).toList ++ ' ' :: 'x' :: ' ' ::
      (elem.render.toList ++ '>' :: rest) := Cursor.rest_advance_append ['<'] (by rw [hc, htext]; simp)
  have hskip := skipBlanks_of_toString h1 true
  -- the length is no `{`, so this is no packed struct
  have hbrace : ((c.advance 1).skipBlanks true).rest.head? ≠ some '{' := by
    obtain ⟨d, ds, hd⟩ := List.exists_cons_of_ne_nil (toList_toString_ne_nil len)
    have hdigit := isDigitChar_of_toString d (by rw [hd]; exact List.mem_cons_self)
    rw [hskip, h1, hd]
    rintro ⟨⟩
    exact absurd hdigit (by decide)
  rw [parseType, run_bind_ok (run_skipBlanks _ _), Cursor.skipBlanks_of_head hhead (by decide) (by decide),
    run_bind_ok (run_peek _), hhead]
  simp only
  rw [run_bind_ok (run_advance _ _), run_bind_ok (run_tryChar_miss hbrace), hskip]
  simp only [Bool.false_eq_true, if_false]
  rw [run_sized (f := f) hlen he (by simp only [Ty.readDepth] at hf; omega) (by decide) h1,
    run_bind_ok (run_pure _ _), Cursor.advance_advance,
    ← String.length_toList (s := (Ty.vector len elem).render), htext]
  simp only [List.length_cons, List.length_append, List.length_nil, String.length_toList]
  congr 2
  omega

/-! ## Structs -/

/-- The text of a struct's fields between braces, as `Ty.render` writes it. -/
def bracedFields (fields : List Ty) : String :=
  if fields.isEmpty then "\x7b\x7d" else "\x7b " ++ Ty.renderList fields ++ " \x7d"

theorem bracedFields_head (fields : List Ty) : (bracedFields fields).toList.head? = some '{' := by
  cases fields <;> simp [bracedFields]

theorem render_struct (packed : Bool) (fields : List Ty) :
    (Ty.struct packed fields).render =
      if packed then "<" ++ bracedFields fields ++ ">" else bracedFields fields := by
  cases fields <;> rfl

/-- The text of a list of types: the first type, then `, ` and the text of the others. -/
theorem toList_renderList_cons (t : Ty) {ts : List Ty} (hts : ts ≠ []) :
    (Ty.renderList (t :: ts)).toList = t.render.toList ++ ',' :: ' ' :: (Ty.renderList ts).toList := by
  obtain ⟨u, us, rfl⟩ := List.exists_cons_of_ne_nil hts
  simp [Ty.renderList]

/-- Reading a list of types skips blanks before each, so a space before it changes nothing. -/
theorem typeListRest_space {f : Nat} {close : Char} {c : Cursor} {r : List Char}
    (hc : c.rest = ' ' :: r) :
    (typeListRest (f + 2) close).run c = (typeListRest (f + 2) close).run (c.advance 1) := by
  simp only [typeListRest]
  rw [StateT.run_bind, StateT.run_bind, parseType_space hc]

/-- **A list of types read back**, up to the closing brace after a space. -/
theorem typeListRest_renderList {ts : List Ty} (hts : ∀ t ∈ ts, ReadsBack t) (hne : ts ≠ [])
    {fuel : Nat} {c : Cursor} {rest : List Char} (hf : Ty.readDepthList ts + 1 ≤ fuel)
    (hc : c.rest = (Ty.renderList ts).toList ++ ' ' :: '}' :: rest) :
    (typeListRest fuel '}').run c = .ok (ts, c.advance ((Ty.renderList ts).length + 2)) := by
  induction ts generalizing fuel c with
  | nil => exact absurd rfl hne
  | cons t ts ih =>
    obtain ⟨f, rfl⟩ : ∃ f, fuel = f + 1 := ⟨fuel - 1, by simp only [Ty.readDepthList] at hf; omega⟩
    have ht := hts t List.mem_cons_self
    have hft : t.readDepth + 1 ≤ f := by simp only [Ty.readDepthList] at hf; omega
    simp only [typeListRest]
    by_cases hnil : ts = []
    · -- the last type, then ` }`
      subst hnil
      have hc' : c.rest = t.render.toList ++ ' ' :: '}' :: rest := by simpa [Ty.renderList] using hc
      have h1 : (c.advance t.render.length).rest = ' ' :: '}' :: rest :=
        Cursor.rest_advance_append _ hc'
      have h2 : ((c.advance t.render.length).advance 1).rest = '}' :: rest :=
        Cursor.rest_advance_append [' '] h1
      have hskip : (c.advance t.render.length).skipBlanks false =
          (c.advance t.render.length).advance 1 := by
        rw [Cursor.skipBlanks_space h1, Cursor.skipBlanks_of_head (by rw [h2]; rfl) (by decide) (by decide)]
      have hskip2 : ((c.advance t.render.length).advance 1).skipBlanks true =
          (c.advance t.render.length).advance 1 :=
        Cursor.skipBlanks_of_head (by rw [h2]; rfl) (by decide) (by decide) _
      have hglue : ∀ ch ∈ (' ' :: '}' :: rest).head?, t.continuesWith ch = false := fun ch hch => by
        cases hch
        exact Ty.continuesWith_eq_false (by decide) (by decide)
      have hstop : stopsSuffixes (' ' :: '}' :: rest) := by
        rw [stopsSuffixes_space]
        exact stopsSuffixes_cons (by decide) (by decide) (by decide) (by decide) (by decide)
      rw [run_bind_ok (ht.run_eq_ok hft hc' hglue hstop), hskip,
        run_bind_ok (run_tryChar_hit (by rw [hskip2, h2]; rfl)), hskip2]
      simp only [if_true, Cursor.advance_advance]
      rfl
    · -- a type, then `, ` and the others
      have hc' : c.rest = t.render.toList ++ ',' :: ' ' ::
          ((Ty.renderList ts).toList ++ ' ' :: '}' :: rest) := by
        rw [hc, toList_renderList_cons t hnil]
        simp
      have h1 : (c.advance t.render.length).rest =
          ',' :: ' ' :: ((Ty.renderList ts).toList ++ ' ' :: '}' :: rest) :=
        Cursor.rest_advance_append _ hc'
      have h2 : ((c.advance t.render.length).advance 1).rest =
          ' ' :: ((Ty.renderList ts).toList ++ ' ' :: '}' :: rest) :=
        Cursor.rest_advance_append [','] h1
      have h3 : (((c.advance t.render.length).advance 1).advance 1).rest =
          (Ty.renderList ts).toList ++ ' ' :: '}' :: rest :=
        Cursor.rest_advance_append [' '] h2
      have hskip : (c.advance t.render.length).skipBlanks true = c.advance t.render.length :=
        Cursor.skipBlanks_of_head (by rw [h1]; rfl) (by decide) (by decide) _
      have hrest : Ty.readDepthList ts + 1 ≤ f := by
        simp only [Ty.readDepthList] at hf
        omega
      obtain ⟨f, rfl⟩ : ∃ f', f = f' + 2 := by
        obtain ⟨u, us, rfl⟩ := List.exists_cons_of_ne_nil hnil
        have := Ty.readDepth_pos u
        exact ⟨f - 2, by simp only [Ty.readDepthList] at hrest; omega⟩
      have hlen : (Ty.renderList (t :: ts)).length = t.render.length + 2 + (Ty.renderList ts).length := by
        rw [← String.length_toList, toList_renderList_cons t hnil]
        simp only [List.length_append, List.length_cons, String.length_toList]
        omega
      have hothers : (typeListRest (f + 2) '}').run ((c.advance t.render.length).advance 1) =
          .ok (ts, (((c.advance t.render.length).advance 1).advance 1).advance
            ((Ty.renderList ts).length + 2)) := by
        rw [typeListRest_space h2]
        exact ih (fun u hu => hts u (List.mem_cons_of_mem t hu)) hnil hrest h3
      rw [run_bind_ok (ht.run_closed (by decide) hft hc'),
        run_bind_ok (run_tryChar_miss (by rw [hskip, h1]; simp)), hskip]
      simp only [Bool.false_eq_true, if_false]
      rw [run_bind_ok (run_expect_at h1 (by decide) (by decide)), run_bind_ok hothers, hlen]
      simp only [Cursor.advance_advance]
      rfl

/-- The fields between braces are read back, from the opening brace on. -/
theorem parseTypeList_braced {fields : List Ty} (hfs : ∀ t ∈ fields, ReadsBack t) {fuel : Nat}
    {c : Cursor} {rest : List Char} (hf : Ty.readDepthList fields + 2 ≤ fuel)
    (hc : c.rest = (bracedFields fields).toList ++ rest) :
    (parseTypeList fuel '}').run (c.advance 1) =
      .ok (fields, c.advance (bracedFields fields).length) := by
  obtain ⟨f, rfl⟩ : ∃ f, fuel = f + 1 := ⟨fuel - 1, by omega⟩
  simp only [parseTypeList]
  cases fields with
  | nil =>
    have h1 : (c.advance 1).rest = '}' :: rest := Cursor.rest_advance_append ['{'] hc
    have hskip : (c.advance 1).skipBlanks true = c.advance 1 :=
      Cursor.skipBlanks_of_head (by rw [h1]; rfl) (by decide) (by decide) _
    rw [run_bind_ok (run_tryChar_hit (by rw [hskip, h1]; rfl)), hskip, Cursor.advance_advance]
    rfl
  | cons t ts =>
    have htext : (bracedFields (t :: ts)).toList =
        '{' :: ' ' :: ((Ty.renderList (t :: ts)).toList ++ [' ', '}']) := by
      simp [bracedFields]
    have h1 : (c.advance 1).rest = ' ' :: ((Ty.renderList (t :: ts)).toList ++ ' ' :: '}' :: rest) :=
      Cursor.rest_advance_append ['{'] (by rw [hc, htext]; simp)
    have h2 : ((c.advance 1).advance 1).rest = (Ty.renderList (t :: ts)).toList ++ ' ' :: '}' :: rest :=
      Cursor.rest_advance_append [' '] h1
    -- the first field starts with an opener, which is neither blank nor a closing brace
    obtain ⟨ch, hch, hhead⟩ := Ty.render_head t
    have hopen : ∀ x ∈ Ty.openers, Cursor.isBlank x = false ∧ x ≠ ';' ∧ x ≠ '}' :=
      forall_mem_of_all (by decide)
    have hfirst : ((c.advance 1).advance 1).rest.head? = some ch := by
      rw [h2, List.head?_append]
      cases ts <;> simp [Ty.renderList, hhead]
    have hskip : (c.advance 1).skipBlanks true = (c.advance 1).advance 1 := by
      rw [Cursor.skipBlanks_space h1,
        Cursor.skipBlanks_of_head hfirst (hopen ch hch).1 (hopen ch hch).2.1]
    have hlen : (bracedFields (t :: ts)).length = 1 + (1 + ((Ty.renderList (t :: ts)).length + 2)) := by
      rw [← String.length_toList, htext]
      simp only [List.length_cons, List.length_append, List.length_nil, String.length_toList]
      omega
    rw [run_bind_ok (run_tryChar_miss (by rw [hskip, hfirst]; simpa using (hopen ch hch).2.2)),
      hskip]
    simp only [Bool.false_eq_true, if_false]
    rw [typeListRest_renderList hfs (List.cons_ne_nil t ts) (by omega) h2, hlen,
      Cursor.advance_advance, Cursor.advance_advance]

/-- A struct is read as its fields between braces, within `<` and `>` when packed. -/
theorem readsBack_struct {packed : Bool} {fields : List Ty} (hfs : ∀ t ∈ fields, ReadsBack t) :
    ReadsBack (.struct packed fields) := by
  intro fuel c rest hf hc _
  obtain ⟨f, rfl⟩ : ∃ f, fuel = f + 1 := ⟨fuel - 1, by simp only [Ty.readDepth] at hf; omega⟩
  refine ⟨f, by simp only [Ty.readDepth]; omega, ?_⟩
  have hfields : Ty.readDepthList fields + 2 ≤ f := by simp only [Ty.readDepth] at hf; omega
  rw [render_struct] at hc ⊢
  cases packed with
  | false =>
    simp only [Bool.false_eq_true, if_false] at hc ⊢
    have hhead : c.rest.head? = some '{' := by
      rw [hc, List.head?_append, bracedFields_head]
      rfl
    rw [parseType, run_bind_ok (run_skipBlanks _ _),
      Cursor.skipBlanks_of_head hhead (by decide) (by decide), run_bind_ok (run_peek _), hhead]
    simp only
    rw [run_bind_ok (run_advance _ _), run_bind_ok (parseTypeList_braced hfs hfields hc)]
    rfl
  | true =>
    simp only [if_true] at hc ⊢
    have hc' : c.rest = ['<'] ++ ((bracedFields fields).toList ++ '>' :: rest) := by
      rw [hc]
      simp
    have hhead : c.rest.head? = some '<' := by rw [hc']; rfl
    have h1 : (c.advance 1).rest = (bracedFields fields).toList ++ '>' :: rest :=
      Cursor.rest_advance_append _ hc'
    have hbrace : (c.advance 1).rest.head? = some '{' := by
      rw [h1, List.head?_append, bracedFields_head]
      rfl
    have hskip : (c.advance 1).skipBlanks true = c.advance 1 :=
      Cursor.skipBlanks_of_head hbrace (by decide) (by decide) _
    have h2 : ((c.advance 1).advance (bracedFields fields).length).rest = '>' :: rest :=
      Cursor.rest_advance_append _ h1
    rw [parseType, run_bind_ok (run_skipBlanks _ _),
      Cursor.skipBlanks_of_head hhead (by decide) (by decide), run_bind_ok (run_peek _), hhead]
    simp only
    rw [run_bind_ok (run_advance _ _), run_bind_ok (run_tryChar_hit (by rw [hskip, hbrace])), hskip]
    simp only [if_true]
    rw [run_bind_ok (parseTypeList_braced hfs hfields h1),
      run_bind_ok (run_expect_at h2 (by decide) (by decide)), run_bind_ok (run_pure _ _),
      String.length_append, String.length_append]
    simp only [Cursor.advance_advance]
    rfl

/-! ## Function types -/

/-- The text of a function type's parameters after its `(`, as `Ty.render` writes it. -/
def paramsText (params : List Ty) (variadic : Bool) : String :=
  Ty.renderList params ++ (if variadic then (if params.isEmpty then "..." else ", ...") else "") ++
    ")"

theorem render_func (ret : Ty) (params : List Ty) (variadic : Bool) :
    (Ty.func ret params variadic).render = ret.render ++ " (" ++ paramsText params variadic := by
  simp only [Ty.render, paramsText, String.append_assoc]

/-- Unless it is the last, a parameter is followed by `, ` and the text of the others. -/
theorem toList_paramsText_cons (t : Ty) {ps : List Ty} {v : Bool} (hpv : ps ≠ [] ∨ v = true) :
    (paramsText (t :: ps) v).toList = t.render.toList ++ ',' :: ' ' :: (paramsText ps v).toList := by
  cases ps with
  | nil =>
    simp only [ne_eq, not_true_eq_false, false_or] at hpv
    subst hpv
    simp [paramsText, Ty.renderList]
  | cons u us => cases v <;> simp [paramsText, Ty.renderList]

/-- Parameters that are not just `)` start with `.` or with the opener of a type. -/
theorem paramsText_head {ps : List Ty} {v : Bool} (hpv : ps ≠ [] ∨ v = true) :
    ∃ ch ∈ '.' :: Ty.openers, (paramsText ps v).toList.head? = some ch := by
  cases ps with
  | nil =>
    simp only [ne_eq, not_true_eq_false, false_or] at hpv
    subst hpv
    exact ⟨'.', by decide, by simp [paramsText, Ty.renderList]⟩
  | cons t ts =>
    obtain ⟨ch, hch, hhead⟩ := Ty.render_head t
    refine ⟨ch, List.mem_cons_of_mem _ hch, ?_⟩
    cases ts <;> cases v <;> simp [paramsText, Ty.renderList, List.head?_append, hhead]

theorem paramsOpener_facts : ∀ x ∈ '.' :: Ty.openers, Cursor.isBlank x = false ∧ x ≠ ';' ∧
    x ≠ ')' :=
  forall_mem_of_all (by decide)

theorem run_atEllipsis (c : Cursor) :
    atEllipsis.run c = .ok (decide (c.rest.take 3 = ['.', '.', '.']), c) := rfl

/-- A type's text never opens with `...`, so a parameter is not taken for the variadic mark. -/
theorem take_render_ne_dots (t : Ty) (after : List Char) :
    ¬ (t.render.toList ++ after).take 3 = ['.', '.', '.'] := by
  obtain ⟨ch, hch, hhead⟩ := Ty.render_head t
  obtain ⟨tl, htl⟩ := List.head?_eq_some_iff.mp hhead
  have hdot : ch ≠ '.' := by
    have : ∀ x ∈ Ty.openers, x ≠ '.' := forall_mem_of_all (by decide)
    exact this ch hch
  rw [htl, List.cons_append, List.take_succ_cons, List.cons.injEq]
  exact fun h => hdot h.1

/-- **The parameters of a function type read back**, after the blanks before them. -/
theorem funcTypeParamsRest_params {ps : List Ty} {v : Bool} (hps : ∀ t ∈ ps, ReadsBack t)
    (hpv : ps ≠ [] ∨ v = true) {fuel : Nat} {c : Cursor} {rest : List Char}
    (hf : Ty.readDepthList ps + 1 ≤ fuel)
    (hc : (c.skipBlanks true).rest = (paramsText ps v).toList ++ rest) :
    (funcTypeParamsRest fuel).run c =
      .ok ((ps, v), (c.skipBlanks true).advance (paramsText ps v).length) := by
  induction ps generalizing fuel c with
  | nil =>
    simp only [ne_eq, not_true_eq_false, false_or] at hpv
    subst hpv
    obtain ⟨f, rfl⟩ : ∃ f, fuel = f + 1 := ⟨fuel - 1, by omega⟩
    have htext : (paramsText [] true).toList = ['.', '.', '.', ')'] := by
      simp [paramsText, Ty.renderList]
    have h3 : ((c.skipBlanks true).advance 3).rest = ')' :: rest :=
      Cursor.rest_advance_append ['.', '.', '.'] (by rw [hc, htext]; rfl)
    simp only [funcTypeParamsRest]
    rw [run_bind_ok (run_skipBlanks _ _), run_bind_ok (run_atEllipsis _), hc, htext]
    simp only [List.cons_append, List.take_succ_cons, List.take_zero, decide_true, if_true]
    rw [run_bind_ok (run_advance _ _), run_bind_ok (run_expect_at h3 (by decide) (by decide)),
      ← String.length_toList, htext, Cursor.advance_advance]
    rfl
  | cons t ts ih =>
    obtain ⟨f, rfl⟩ : ∃ f, fuel = f + 1 := ⟨fuel - 1, by simp only [Ty.readDepthList] at hf; omega⟩
    have ht := hps t List.mem_cons_self
    have hft : t.readDepth + 1 ≤ f := by simp only [Ty.readDepthList] at hf; omega
    -- the first parameter starts with an opener, so the text is no `...`
    have hnotdots : ¬ (c.skipBlanks true).rest.take 3 = ['.', '.', '.'] := by
      obtain ⟨after, hafter⟩ : ∃ after, (paramsText (t :: ts) v).toList = t.render.toList ++ after := by
        cases ts with
        | nil => exact ⟨((if v then ", ..." else "") ++ ")").toList, by simp [paramsText, Ty.renderList]⟩
        | cons u us => exact ⟨_, toList_paramsText_cons t (.inl (List.cons_ne_nil _ _))⟩
      rw [hc, hafter, List.append_assoc]
      exact take_render_ne_dots t _
    simp only [funcTypeParamsRest]
    rw [run_bind_ok (run_skipBlanks _ _), run_bind_ok (run_atEllipsis _), decide_eq_false hnotdots]
    simp only [Bool.false_eq_true, if_false]
    by_cases hlast : ts = [] ∧ v = false
    · -- the last parameter, then `)`
      obtain ⟨rfl, rfl⟩ := hlast
      have hc' : (c.skipBlanks true).rest = t.render.toList ++ ')' :: rest := by
        rw [hc]
        simp [paramsText, Ty.renderList]
      have h1 : ((c.skipBlanks true).advance t.render.length).rest = ')' :: rest :=
        Cursor.rest_advance_append _ hc'
      have hskip : ((c.skipBlanks true).advance t.render.length).skipBlanks true =
          (c.skipBlanks true).advance t.render.length :=
        Cursor.skipBlanks_of_head (by rw [h1]; rfl) (by decide) (by decide) _
      have hlen : (paramsText [t] false).length = t.render.length + 1 := by
        rw [← String.length_toList, ← String.length_toList]
        simp [paramsText, Ty.renderList]
      rw [run_bind_ok (ht.run_closed (by decide) hft hc'),
        run_bind_ok (run_tryChar_hit (by rw [hskip, h1]; rfl)), hskip, hlen]
      simp only [if_true, Cursor.advance_advance]
      rfl
    · -- a parameter, then `, ` and the others
      have hpv' : ts ≠ [] ∨ v = true := by
        cases v <;> simp_all
      have hc' : (c.skipBlanks true).rest =
          t.render.toList ++ ',' :: ' ' :: ((paramsText ts v).toList ++ rest) := by
        rw [hc, toList_paramsText_cons t hpv']
        simp
      have h1 : ((c.skipBlanks true).advance t.render.length).rest =
          ',' :: ' ' :: ((paramsText ts v).toList ++ rest) := Cursor.rest_advance_append _ hc'
      have h2 : (((c.skipBlanks true).advance t.render.length).advance 1).rest =
          ' ' :: ((paramsText ts v).toList ++ rest) := Cursor.rest_advance_append [','] h1
      have h3 : ((((c.skipBlanks true).advance t.render.length).advance 1).advance 1).rest =
          (paramsText ts v).toList ++ rest := Cursor.rest_advance_append [' '] h2
      have hskip : ((c.skipBlanks true).advance t.render.length).skipBlanks true =
          (c.skipBlanks true).advance t.render.length :=
        Cursor.skipBlanks_of_head (by rw [h1]; rfl) (by decide) (by decide) _
      obtain ⟨ch, hch, hhead⟩ := paramsText_head hpv'
      have hskip2 : (((c.skipBlanks true).advance t.render.length).advance 1).skipBlanks true =
          (((c.skipBlanks true).advance t.render.length).advance 1).advance 1 := by
        rw [Cursor.skipBlanks_space h2, Cursor.skipBlanks_of_head
          (by rw [h3, List.head?_append, hhead]; rfl) (paramsOpener_facts ch hch).1
          (paramsOpener_facts ch hch).2.1]
      have hothers : (funcTypeParamsRest f).run (((c.skipBlanks true).advance t.render.length).advance 1) =
          .ok ((ts, v), ((((c.skipBlanks true).advance t.render.length).advance 1).skipBlanks true).advance
            (paramsText ts v).length) :=
        ih (fun u hu => hps u (List.mem_cons_of_mem t hu)) hpv'
          (by simp only [Ty.readDepthList] at hf; omega) (by rw [hskip2, h3])
      have hlen : (paramsText (t :: ts) v).length = t.render.length + 1 + 1 + (paramsText ts v).length := by
        rw [← String.length_toList, toList_paramsText_cons t hpv']
        simp only [List.length_append, List.length_cons, String.length_toList]
        omega
      rw [run_bind_ok (ht.run_closed (by decide) hft hc'),
        run_bind_ok (run_tryChar_miss (by rw [hskip, h1]; simp)), hskip]
      simp only [Bool.false_eq_true, if_false]
      rw [run_bind_ok (run_expect_at h1 (by decide) (by decide)), run_bind_ok hothers, hskip2, hlen]
      simp only [Cursor.advance_advance]
      rfl

/-- The parameters of a function type read back from after its `(`. -/
theorem funcTypeParams_params {ps : List Ty} {v : Bool} (hps : ∀ t ∈ ps, ReadsBack t)
    {fuel : Nat} {c : Cursor} {rest : List Char} (hf : Ty.readDepthList ps + 2 ≤ fuel)
    (hc : c.rest = (paramsText ps v).toList ++ rest) :
    (funcTypeParams fuel).run c = .ok ((ps, v), c.advance (paramsText ps v).length) := by
  obtain ⟨f, rfl⟩ : ∃ f, fuel = f + 1 := ⟨fuel - 1, by omega⟩
  simp only [funcTypeParams]
  by_cases hnone : ps = [] ∧ v = false
  · -- `()`
    obtain ⟨rfl, rfl⟩ := hnone
    have hhead : c.rest.head? = some ')' := by rw [hc]; rfl
    have hskip : c.skipBlanks true = c := Cursor.skipBlanks_of_head hhead (by decide) (by decide) _
    rw [run_bind_ok (run_tryChar_hit (by rw [hskip, hhead])), hskip]
    rfl
  · have hpv : ps ≠ [] ∨ v = true := by
      cases v <;> simp_all
    obtain ⟨ch, hch, hhead⟩ := paramsText_head hpv
    obtain ⟨hb, hs, hclose⟩ := paramsOpener_facts ch hch
    have hfirst : c.rest.head? = some ch := by rw [hc, List.head?_append, hhead]; rfl
    have hskip : c.skipBlanks true = c := Cursor.skipBlanks_of_head hfirst hb hs _
    rw [run_bind_ok (run_tryChar_miss (by rw [hskip, hfirst]; simpa using hclose)), hskip]
    simp only [Bool.false_eq_true, if_false]
    rw [funcTypeParamsRest_params hps hpv (by omega) (by rw [hskip, hc]), hskip]

/-- A function type is read as its result type with the parameter suffix after it. -/
theorem readsBack_func {ret : Ty} {ps : List Ty} {v : Bool} (hr : ReadsBack ret)
    (hps : ∀ t ∈ ps, ReadsBack t) : ReadsBack (.func ret ps v) := by
  intro fuel c rest hf hc _
  have hd : ret.readDepth ≤ fuel := by simp only [Ty.readDepth] at hf; omega
  rw [render_func] at hc ⊢
  have hc' : c.rest = ret.render.toList ++ ' ' :: '(' :: ((paramsText ps v).toList ++ rest) := by
    rw [hc]
    simp
  -- the suffix opens with a blank, which continues no type
  obtain ⟨g, hg, heq⟩ := hr fuel c _ hd hc'
    (fun ch hch => by cases hch; exact Ty.continuesWith_eq_false (by decide) (by decide))
  obtain ⟨g, rfl⟩ : ∃ g', g = g' + 1 := ⟨g - 1, by simp only [Ty.readDepth] at hf; omega⟩
  refine ⟨g, by simp only [Ty.readDepth]; omega, ?_⟩
  have h1 : (c.advance ret.render.length).rest = ' ' :: '(' :: ((paramsText ps v).toList ++ rest) :=
    Cursor.rest_advance_append _ hc'
  have h2 : ((c.advance ret.render.length).advance 1).rest =
      '(' :: ((paramsText ps v).toList ++ rest) := Cursor.rest_advance_append [' '] h1
  have h3 : (((c.advance ret.render.length).advance 1).advance 1).rest =
      (paramsText ps v).toList ++ rest := Cursor.rest_advance_append ['('] h2
  have hhead : ((c.advance ret.render.length).advance 1).rest.head? = some '(' := by rw [h2]; rfl
  have hlen : (ret.render ++ " (" ++ paramsText ps v).length =
      ret.render.length + 1 + 1 + (paramsText ps v).length := by
    simp only [String.length_append, show " (".length = 2 from rfl]
  rw [heq, typeSuffixes, run_bind_ok (run_skipBlanks _ _), Cursor.skipBlanks_space h1,
    Cursor.skipBlanks_of_head hhead (by decide) (by decide), run_bind_ok (run_peek _), hhead]
  simp only
  rw [run_bind_ok (run_advance _ _),
    run_bind_ok (funcTypeParams_params hps (by simp only [Ty.readDepth] at hf; omega) h3), hlen]
  simp only [Cursor.advance_advance]

/-! ## Every type -/

theorem one_le_length_render (t : Ty) : 1 ≤ t.render.length := by
  obtain ⟨ch, -, hhead⟩ := Ty.render_head t
  obtain ⟨tl, htl⟩ := List.head?_eq_some_iff.mp hhead
  rw [← String.length_toList, htl, List.length_cons]
  omega

theorem readDepth_le_of_eq_one {t : Ty} (hd : t.readDepth = 1) :
    t.readDepth ≤ 2 * t.render.length := by
  have := one_le_length_render t
  omega

theorem length_bracedFields (fields : List Ty) :
    (Ty.renderList fields).length + 2 ≤ (bracedFields fields).length := by
  cases fields with
  | nil => decide
  | cons t ts =>
    simp only [bracedFields, List.isEmpty_cons, Bool.false_eq_true, if_false,
      String.length_append, show "\x7b ".length = 2 from rfl, show " \x7d".length = 2 from rfl]
    omega

theorem length_paramsText (ps : List Ty) (v : Bool) :
    (Ty.renderList ps).length + 1 ≤ (paramsText ps v).length := by
  simp only [paramsText, String.length_append, show ")".length = 1 from rfl]
  omega

mutual

/-- The fuel a type needs is at most twice the length of its text: every level of recursion
reads a character of it, except that the array, vector and struct brackets also take a level
to open. -/
theorem readDepth_le_length : (t : Ty) → t.readDepth ≤ 2 * t.render.length
  | .void | .int _ | .float _ | .label | .token | .named _ => readDepth_le_of_eq_one rfl
  | .pointer elem space => by
    have ih := readDepth_le_length elem
    have hsuffix : 1 ≤ (pointerSuffix space).length := by
      rw [← String.length_toList, toList_pointerSuffix]
      split <;> simp
    rw [render_pointer, String.length_append, Ty.readDepth]
    omega
  | .array len elem => by
    have ih := readDepth_le_length elem
    rw [← String.length_toList]
    simp only [Ty.render, Ty.readDepth, String.toList_append, List.length_append,
      String.length_toList, show "]".length = 1 from rfl]
    omega
  | .vector len elem => by
    have ih := readDepth_le_length elem
    rw [← String.length_toList]
    simp only [Ty.render, Ty.readDepth, String.toList_append, List.length_append,
      String.length_toList, show ">".length = 1 from rfl]
    omega
  | .struct packed fields => by
    have ih := readDepthList_le_length fields
    have hbraced := length_bracedFields fields
    rw [render_struct, Ty.readDepth]
    cases packed
    · simp only [Bool.false_eq_true, if_false]
      omega
    · simp only [if_true, String.length_append]
      omega
  | .func ret params variadic => by
    have ihr := readDepth_le_length ret
    have ihp := readDepthList_le_length params
    have hparams := length_paramsText params variadic
    rw [render_func, String.length_append, String.length_append, Ty.readDepth,
      show " (".length = 2 from rfl]
    omega

theorem readDepthList_le_length : (ts : List Ty) →
    Ty.readDepthList ts ≤ 2 * (Ty.renderList ts).length + 1
  | [] => by simp [Ty.readDepthList]
  | [t] => by
    have ih := readDepth_le_length t
    simp only [Ty.readDepthList, Ty.renderList]
    omega
  | t :: u :: us => by
    have iht := readDepth_le_length t
    have ihs := readDepthList_le_length (u :: us)
    rw [Ty.readDepthList, ← String.length_toList,
      toList_renderList_cons t (List.cons_ne_nil u us)]
    simp only [List.length_append, List.length_cons, String.length_toList]
    omega

end

mutual

/-- **Every type whose numbers fit reads back**, by recursion on the type. -/
theorem readsBack_of_fits : (t : Ty) → t.fits → ReadsBack t
  | .void, _ => readsBack_void
  | .int _, h => readsBack_int (by simpa [Ty.fits] using h)
  | .float k, _ => readsBack_float k
  | .label, _ => readsBack_label
  | .token, _ => readsBack_token
  | .named name, _ => readsBack_named name
  | .pointer elem space, h => by
    simp only [Ty.fits, Bool.and_eq_true, decide_eq_true_eq] at h
    exact readsBack_pointer h.2 (readsBack_of_fits elem h.1)
  | .array len elem, h => by
    simp only [Ty.fits, Bool.and_eq_true, decide_eq_true_eq] at h
    exact readsBack_array h.1 (readsBack_of_fits elem h.2)
  | .vector len elem, h => by
    simp only [Ty.fits, Bool.and_eq_true, decide_eq_true_eq] at h
    exact readsBack_vector h.1 (readsBack_of_fits elem h.2)
  | .struct _ fields, h => readsBack_struct (readsBack_of_fitsList fields h)
  | .func ret params _, h => by
    simp only [Ty.fits, Bool.and_eq_true] at h
    exact readsBack_func (readsBack_of_fits ret h.1) (readsBack_of_fitsList params h.2)

theorem readsBack_of_fitsList : (ts : List Ty) → Ty.fitsList ts → ∀ t ∈ ts, ReadsBack t
  | [], _ => by simp
  | t :: ts, h => by
    simp only [Ty.fitsList, Bool.and_eq_true] at h
    intro u hu
    rw [List.mem_cons] at hu
    rcases hu with hu | hu
    · rw [hu]
      exact readsBack_of_fits t h.1
    · exact readsBack_of_fitsList ts h.2 u hu

end

/-- **Reading the text of a type gives the type back.** For a type `t` that lowering produces
(so lowering gives `t` again) and whose numbers fit the reader's fields, reading at the text of
`t` followed by text that neither continues its last word or name nor, on the same line, goes on
with a suffix, gives `t` and leaves the cursor after the text and the blanks that follow it. -/
theorem parseType_reads_render {s : Scope} {t₀ t : Ty} (hlow : s.lowerType t₀ = .ok t)
    (hfit : t.fits) {rest : List Char} (hglue : ∀ ch ∈ rest.head?, t.continuesWith ch = false)
    (hstop : stopsSuffixes rest) (pos : Nat) :
    let c : Cursor := ⟨t.render.toList ++ rest, pos⟩
    (parseType (fuelFor c)).run c = .ok (t, (c.advance t.render.length).skipBlanks false) ∧
      s.lowerType t = .ok t := by
  intro c
  obtain ⟨-, rfl⟩ := (Scope.lowerType_eq_ok_iff s t₀ t).mp hlow
  have hdepth := readDepth_le_length t
  refine ⟨(readsBack_of_fits t hfit).run_eq_ok ?_ rfl hglue hstop, hlow⟩
  show t.readDepth + 1 ≤ 4 * ((t.render.toList ++ rest).length + 1)
  simp only [List.length_append, String.length_toList]
  omega

/-- A pointer in address space 3 to a variadic function whose parameters are a quoted type name
and a packed struct reads back at the end of a line. -/
theorem variadicFunctionPointer_reads_back :
    let t : Ty := .pointer (.func (.int 32) [.named "a b", .struct true [.int 8]] true) 3
    let c : Cursor := ⟨t.render.toList ++ ['\n'], 0⟩
    (parseType (fuelFor c)).run c = .ok (t, (c.advance t.render.length).skipBlanks false) := by
  intro t c
  let s : Scope := { types := ⟨[("a b", some (.int 8))]⟩ }
  exact (parseType_reads_render (s := s) (show s.lowerType t = .ok t from rfl) rfl
    (fun _ _ => rfl) rfl 0).1

/-- Without the condition on the first character after the text the statement fails: the
digits after `i8` continue its width, and the text reads as `i81`. -/
theorem width_digits_continue_type :
    let c : Cursor := ⟨(Ty.int 8).render.toList ++ ['1'], 0⟩
    (parseType (fuelFor c)).run c = .ok (.int 81, ⟨[], 3⟩) := by
  rfl

end Ast.Reader

end LlvmAsm
