import LlvmAsm.Proofs.Reading.Types
import LlvmAsm.Ast.Grammar.Constant
import LlvmAsm.Proofs.Lowering.WellTypedConstants

/-!
# `Proofs.Reading.Constants` — reading the text of a checked constant

`Const.render` writes a checked constant and `Reader.parseConstant` reads one. An aggregate is
written as its elements, each after its type, between brackets; the reader tells a packed struct
`<{ … }>` from a vector `< … >` by the `{` after the `<`. A vector whose element type is written
with an opening `{` (a pointer to a literal struct, or a function returning one) is therefore read
as a packed struct, and its text does not read back (`structPointerVector_text_unreadable`).

`Const.toAst` is the written constant the text of a checked constant reads as. Reading gives it
back when the text is `Const.Readable`: its types fit the reader's fields, its block numbers fit
32 bits, no vector opens with a `{`, and every float literal reads back.
-/

namespace LlvmAsm

/-- The written name of a local identity. -/
def LocalIdent.toName : LocalIdent → Ast.LocalName
  | .named name => .name name
  | .anon id => .number id

theorem LocalIdent.ofName_toName (i : LocalIdent) : LocalIdent.ofName i.toName = i := by
  cases i <;> rfl

namespace Ast.Reader

/-- The characters of a number after its sign. -/
def numberDigits : List Char → List Char
  | '-' :: rest => rest
  | text => text

/-- Whether a numeric literal is a float literal: past its sign it starts with `0x` or holds
`.`, `e` or `E`. -/
def isFloatText (text : List Char) : Bool :=
  (numberDigits text).take 2 = ['0', 'x'] ||
    (numberDigits text).any (fun ch => ch = '.' || ch = 'e' || ch = 'E')

/-- A numeric literal as the reader takes it: a non-empty run of number characters that starts
with `-` or a digit. -/
structure NumberText (text : List Char) : Prop where
  ne_nil : text ≠ []
  chars : ∀ x ∈ text, isNumberChar x
  head : ∀ x ∈ text.head?, x = '-' ∨ isDigitChar x

/-- Whether a character ends the text of a constant: it continues no number, word or name. -/
def endsConst (ch : Char) : Bool := !isNumberChar ch && !isWordChar ch && !isNameChar ch

end Ast.Reader

namespace FloatConst

/-- The text of a float reads back: the reader takes it as a float literal, and parsing it at
the float's kind gives the float. -/
def ReadsBack (f : FloatConst) : Prop :=
  Ast.Reader.NumberText f.render.toList ∧ Ast.Reader.isFloatText f.render.toList ∧
    FloatConst.parse f.kind f.render = .ok f

end FloatConst

namespace Const

mutual

/-- The written constant that the text of a checked constant reads as. -/
def toAst : Const → Ast.Const
  | .int i => if i.bits = 1 then .bool (i.value != 0) else .int i.render
  | .float f => .float f.render
  | .null _ => .null
  | .none => .none
  | .struct _ packed elems => .struct packed (toAstList elems)
  | .array _ elems => .array (toAstList elems)
  | .chars data => .chars (String.ofList (Text.quoteBody data))
  | .vector _ elems => .vector (toAstList elems)
  | .zeroInit _ => .zeroInit
  | .undef _ => .undef
  | .blockAddress func block => .blockAddress func block.toName
  | .global name _ => .global name
  | .cast op value target => .cast op (.mk value.ty value.toAst) target
  | .binary op lhs rhs => .binary op (.mk lhs.ty lhs.toAst) (.mk rhs.ty rhs.toAst)
  | .gep inBounds elem base indices _ =>
    .gep inBounds elem (.mk base.ty base.toAst) (toAstList indices)

/-- Constants written each after its type. -/
def toAstList : List Const → List Ast.TypedConst
  | [] => []
  | c :: cs => .mk c.ty c.toAst :: toAstList cs

end

mutual

/-- Whether the text of a checked constant reads back: every type it shows fits the reader's
fields, every block number fits 32 bits, no vector's first element has a type written with an
opening `{`, and every float literal reads back. -/
def Readable : Const → Prop
  | .float f => f.ReadsBack
  | .struct _ _ elems => ReadableList elems
  | .array _ elems => ReadableList elems
  | .vector _ elems => (∀ e ∈ elems.head?, e.ty.render.toList.head? ≠ some '{') ∧ ReadableList elems
  | .blockAddress _ block => ∀ id, block = .anon id → id < Ast.Reader.bound32
  | .cast _ value target => value.ty.fits ∧ value.Readable ∧ target.fits
  | .binary _ lhs rhs => lhs.ty.fits ∧ lhs.Readable ∧ rhs.ty.fits ∧ rhs.Readable
  | .gep _ elem base indices _ => elem.fits ∧ base.ty.fits ∧ base.Readable ∧ ReadableList indices
  | .int _ | .null _ | .none | .chars _ | .zeroInit _ | .undef _ | .global .. => True

/-- Every constant of a list is readable after its type, and its type fits. -/
def ReadableList : List Const → Prop
  | [] => True
  | c :: cs => c.ty.fits ∧ c.Readable ∧ ReadableList cs

end

mutual

/-- The depth of recursion reading the text of a constant takes: the fuel
`Reader.parseConstant` needs. -/
def readDepth : Const → Nat
  | .struct _ _ elems => readDepthList elems + 2
  | .array _ elems => readDepthList elems + 2
  | .vector _ elems => readDepthList elems + 2
  | .cast _ value target => value.ty.readDepth + value.readDepth + target.readDepth + 4
  | .binary _ lhs rhs => lhs.ty.readDepth + lhs.readDepth + rhs.ty.readDepth + rhs.readDepth + 4
  | .gep _ elem base indices _ =>
    elem.readDepth + base.ty.readDepth + base.readDepth + readDepthIndices indices + 4
  | .int _ | .float _ | .null _ | .none | .chars _ | .zeroInit _ | .undef _ | .blockAddress .. |
    .global .. => 2

/-- The depth of recursion reading constants written each after its type and separated by `, `. -/
def readDepthList : List Const → Nat
  | [] => 0
  | c :: cs => c.ty.readDepth + c.readDepth + 2 + readDepthList cs

/-- The depth of recursion reading the indices of a `getelementptr`. -/
def readDepthIndices : List Const → Nat
  | [] => 1
  | c :: cs => c.ty.readDepth + c.readDepth + 2 + readDepthIndices cs

end

theorem two_le_readDepth (k : Const) : 2 ≤ k.readDepth := by
  cases k <;> simp only [readDepth] <;> omega

end Const

namespace Ast.Cursor

/-- After skipping blanks across lines, the text starts with neither a blank nor a `;`. -/
theorem skipBlanksFrom_head (cs : List Char) (ic : Bool) (pos : Nat) :
    ∀ ch ∈ (skipBlanksFrom true ic cs pos).rest.head?, isBlank ch = false ∧ ch ≠ ';' := by
  induction cs generalizing ic pos with
  | nil => intro ch hch; cases hch
  | cons x xs ih =>
    unfold skipBlanksFrom
    -- a branch either goes on with the tail, stops at `x` when it is neither blank nor `;`, or
    -- stops at a line feed, which skipping across lines never does
    split_ifs <;> first | exact ih _ _ | simp_all

/-- Skipping blanks twice skips them once. -/
theorem skipBlanks_skipBlanks (c : Cursor) : (c.skipBlanks true).skipBlanks true = c.skipBlanks true := by
  cases hr : (c.skipBlanks true).rest with
  | nil =>
    rw [skipBlanks, hr, skipBlanksFrom]
    rw [← hr]
  | cons ch r =>
    have hhead := skipBlanksFrom_head c.rest false c.pos ch (by
      show ch ∈ (c.skipBlanks true).rest.head?
      rw [hr]; rfl)
    exact skipBlanks_of_head (by rw [hr]; rfl) hhead.1 hhead.2 true

end Ast.Cursor

namespace Ast.Reader

variable {c : Cursor}

theorem run_peekAt (k : Nat) (c : Cursor) : (peekAt k).run c = .ok (c.rest[k]?, c) := rfl

/-- No word is found where the next character continues none. -/
theorem run_peekWord_none (h : ∀ x ∈ (c.skipBlanks true).rest.head?, isWordChar x = false) :
    peekWord.run c = .ok (none, c.skipBlanks true) := by
  have hnil : (c.skipBlanks true).rest.takeWhile isWordChar = [] := by
    cases hr : (c.skipBlanks true).rest with
    | nil => rfl
    | cons x r =>
      rw [hr] at h
      simp [h x rfl]
  simp only [peekWord]
  rw [run_bind_ok (run_skipBlanks _ _), run_wordAt_eq, hnil]
  rfl

theorem run_tryWord_miss {w : String}
    (h : ∀ x ∈ (c.skipBlanks true).rest.head?, isWordChar x = false) :
    (tryWord w).run c = .ok (false, c.skipBlanks true) := by
  simp only [tryWord]
  rw [run_bind_ok (run_peekWord_none h)]
  rfl

theorem toList_globalName (name : String) :
    (Text.globalName name).toList = '@' :: (Text.ident name).toList := by
  rw [Text.globalName, String.toList_append]
  rfl

/-- `@name` is read as the global name `name`. -/
theorem run_readGlobalName {name : String} {r : List Char}
    (hc : (c.skipBlanks true).rest = (Text.globalName name).toList ++ r)
    (hr : Text.isBare name → ∀ x ∈ r.head?, isNameChar x = false) :
    readGlobalName.run c =
      .ok (name, (c.skipBlanks true).advance (Text.globalName name).length) := by
  have hlen : (Text.globalName name).length = 1 + (Text.ident name).length := by
    rw [← String.length_toList, toList_globalName, List.length_cons, String.length_toList,
      Nat.add_comm]
  rw [hlen]
  exact run_expect_readName (by rw [hc, toList_globalName]; rfl) hr

theorem toList_render_anon (id : Nat) :
    (LocalIdent.anon id).render.toList = '%' :: (toString id).toList := by
  rw [LocalIdent.render, String.toList_append]
  rfl

/-- `%N` is read as the local number `N`, when it fits 32 bits. -/
theorem run_readLocal_number {id : Nat} {r : List Char}
    (hc : (c.skipBlanks true).rest = (LocalIdent.anon id).render.toList ++ r)
    (hr : ∀ x ∈ r.head?, isDigitChar x = false) (hid : id < bound32) :
    readLocal.run c =
      .ok (.number id, (c.skipBlanks true).advance (LocalIdent.anon id).render.length) := by
  have hrest : ((c.skipBlanks true).advance 1).rest = (toString id).toList ++ r :=
    Cursor.rest_advance_append ['%'] (by rw [hc, toList_render_anon]; rfl)
  obtain ⟨d, ds, hd⟩ := List.exists_cons_of_ne_nil (toList_toString_ne_nil id)
  have hdigit := isDigitChar_of_toString d (by rw [hd]; exact List.mem_cons_self)
  have hpeek : ((c.skipBlanks true).advance 1).rest.head? = some d := by rw [hrest, hd]; rfl
  have hlen : (LocalIdent.anon id).render.length = 1 + (toString id).length := by
    rw [← String.length_toList, toList_render_anon, List.length_cons, String.length_toList,
      Nat.add_comm]
  simp only [readLocal]
  rw [run_bind_ok (run_expect (by rw [hc, toList_render_anon]; rfl)), run_bind_ok (run_peek _),
    hpeek]
  simp only [hdigit, if_true]
  rw [run_bind_ok (run_readNumber_at hrest hr hid), hlen, Cursor.advance_add]
  rfl

/-- A local identity is read back as its written name, a number when it fits 32 bits. -/
theorem run_readLocal_ident {i : LocalIdent} {r : List Char}
    (hc : (c.skipBlanks true).rest = i.render.toList ++ r)
    (hr : ∀ x ∈ r.head?, isNameChar x = false ∧ isDigitChar x = false)
    (hid : ∀ id, i = .anon id → id < bound32) :
    readLocal.run c = .ok (i.toName, (c.skipBlanks true).advance i.render.length) := by
  cases i with
  | named name => exact run_readLocal hc fun _ x hx => (hr x hx).1
  | anon id => exact run_readLocal_number hc (fun x hx => (hr x hx).2) (hid id rfl)

/-- A run of number characters, followed by a character of none, is read as one literal: a float
literal when it is shaped as one, an integer literal otherwise. -/
theorem run_parseNumber {text r : List Char} (hc : c.rest = text ++ r)
    (hchars : ∀ x ∈ text, isNumberChar x) (hr : ∀ x ∈ r.head?, isNumberChar x = false) :
    parseNumber.run c = .ok (if isFloatText text then .float (String.ofList text)
      else .int (String.ofList text), c.advance text.length) := by
  have htake : c.rest.takeWhile isNumberChar = text := by
    rw [hc]
    exact takeWhile_append_of_stop hchars hr
  simp only [parseNumber]
  rw [run_bind_ok (run_get _), htake, run_bind_ok (run_advance _ _)]
  -- the sign is split off the same way on both sides
  rcases text with _ | ⟨x, xs⟩
  · rfl
  · by_cases hx : x = '-'
    · subst hx
      simp only [isFloatText, numberDigits]
      split <;> rfl
    · have hd : numberDigits (x :: xs) = x :: xs := by
        unfold numberDigits
        split
        · next h => exact absurd (List.cons.inj h).1 hx
        · rfl
      rw [isFloatText, hd]
      split
      · next h => exact absurd (List.cons.inj h).1 hx
      · split <;> rfl

/-! ## Number texts -/

/-- The decimal text of an integer: its digits, after a `-` when it is negative. -/
theorem toList_toString_int (v : Int) : ∃ ds : List Char, ds ≠ [] ∧ (∀ x ∈ ds, isDigitChar x) ∧
    ((toString v).toList = ds ∨ (toString v).toList = '-' :: ds) := by
  have hdig : ∀ n : Nat, ∀ x ∈ Nat.toDigits 10 n, isDigitChar x := fun _ _ hx =>
    Nat.isDigit_of_mem_toDigits (by decide) (by decide) hx
  rw [Int.toString_eq_repr, Int.repr_eq_if]
  split_ifs
  · exact ⟨_, Nat.toDigits_ne_nil, hdig _, .inl Nat.toList_repr⟩
  · exact ⟨_, Nat.toDigits_ne_nil, hdig _, .inr (by rw [String.toList_append, Nat.toList_repr]; rfl)⟩

theorem isNumberChar_of_isDigitChar {x : Char} (h : isDigitChar x) : isNumberChar x := by
  have hx : x.isDigit = true := h
  simp [isNumberChar, Char.isAlphanum, hx]

/-- Digits, with or without a `-`, are no float literal. -/
theorem isFloatText_digits {ds : List Char} (hne : ds ≠ []) (hdig : ∀ x ∈ ds, isDigitChar x) :
    isFloatText ds = false ∧ isFloatText ('-' :: ds) = false := by
  have hnd : numberDigits ds = ds := by
    obtain ⟨d, ds', rfl⟩ := List.exists_cons_of_ne_nil hne
    have hd : d ≠ '-' := by
      rintro rfl
      exact absurd (hdig '-' List.mem_cons_self) (by decide)
    unfold numberDigits
    split
    · next h => exact absurd (List.cons.inj h).1 hd
    · rfl
  have hx : ¬ ds.take 2 = ['0', 'x'] := fun h => by
    have hmem : 'x' ∈ ds.take 2 := by rw [h]; simp
    exact absurd (hdig 'x' (List.mem_of_mem_take hmem)) (by decide)
  have hany : ds.any (fun ch => ch = '.' || ch = 'e' || ch = 'E') = false := by
    rw [List.any_eq_false]
    intro x hx hsep
    have hd := hdig x hx
    simp only [Bool.or_eq_true, decide_eq_true_eq] at hsep
    rcases hsep with (rfl | rfl) | rfl <;> exact absurd hd (by decide)
  exact ⟨by simp [isFloatText, hnd, hx, hany], by simp [isFloatText, numberDigits, hx, hany]⟩

/-- The decimal text of an integer is read as an integer literal. -/
theorem numberText_toString_int (v : Int) :
    NumberText (toString v).toList ∧ isFloatText (toString v).toList = false := by
  obtain ⟨ds, hne, hdig, h | h⟩ := toList_toString_int v <;> rw [h]
  · obtain ⟨d, ds', rfl⟩ := List.exists_cons_of_ne_nil hne
    refine ⟨⟨List.cons_ne_nil _ _, fun x hx => isNumberChar_of_isDigitChar (hdig x hx), ?_⟩,
      (isFloatText_digits (List.cons_ne_nil _ _) hdig).1⟩
    intro x hx
    cases hx
    exact .inr (hdig _ List.mem_cons_self)
  · refine ⟨⟨List.cons_ne_nil _ _, ?_, fun x hx => by cases hx; exact .inl rfl⟩,
      (isFloatText_digits hne hdig).2⟩
    intro x hx
    rcases List.mem_cons.mp hx with rfl | hx
    · rfl
    · exact isNumberChar_of_isDigitChar (hdig x hx)

/-- A number opens with a character that opens nothing else. -/
theorem numberHead_facts {ch : Char} (h : ch = '-' ∨ isDigitChar ch) :
    Cursor.isBlank ch = false ∧ ch ≠ ';' ∧ ch ≠ '@' ∧ ch ≠ '{' ∧ ch ≠ '<' ∧ ch ≠ '[' ∧ ch ≠ 'c' ∧
      ch ≠ '*' ∧ ch ≠ '(' ∧ ch ≠ 'a' := by
  rcases h with rfl | hd
  · decide
  · have hfacts : ∀ x ∈ [';', '@', '{', '<', '[', 'c', '*', '(', 'a'], isDigitChar x = false :=
      forall_mem_of_all (by decide)
    have hne : ∀ x ∈ [';', '@', '{', '<', '[', 'c', '*', '(', 'a'], ch ≠ x := fun x hx heq =>
      absurd (heq ▸ hd) (by rw [hfacts x hx]; decide)
    have hblank : Cursor.isBlank ch = false := by
      cases hb : Cursor.isBlank ch
      · rfl
      · simp only [Cursor.isBlank, Bool.or_eq_true, decide_eq_true_eq] at hb
        rcases hb with (((rfl | rfl) | rfl) | rfl) | rfl <;> exact absurd hd (by decide)
    simp only [List.mem_cons, List.not_mem_nil, or_false, forall_eq_or_imp, forall_eq] at hne
    exact ⟨hblank, hne⟩

/-! ## Where a text stops a type before it -/

/-- A text whose first character extends no type, and whose first word is not `addrspace`, stops
the suffix loop. -/
theorem stopsSuffixes_of_head {ch : Char} {r : List Char} (hb : Cursor.isBlank ch = false)
    (hs : ch ≠ ';') (hstar : ch ≠ '*') (hparen : ch ≠ '(')
    (hw : (ch :: r).takeWhile isWordChar ≠ "addrspace".toList) : stopsSuffixes (ch :: r) := by
  rw [stopsSuffixes, Cursor.skipBlanksFrom, if_neg Bool.false_ne_true, if_neg hs, hb,
    if_neg Bool.false_ne_true]
  split
  · next heq => exact absurd (List.cons.inj heq).1 hstar
  · next heq => exact absurd (List.cons.inj heq).1 hparen
  · simpa using hw

/-- A word that does not start with `a` is not `addrspace`. -/
theorem takeWhile_ne_addrspace {ch : Char} {r : List Char} (ha : ch ≠ 'a') :
    (ch :: r).takeWhile isWordChar ≠ "addrspace".toList := by
  rw [List.takeWhile_cons, show "addrspace".toList = 'a' :: "ddrspace".toList from rfl]
  split
  · exact fun h => ha (List.cons.inj h).1
  · exact fun h => List.cons_ne_nil _ _ h.symm

/-! ## Reading a constant by its first character -/

/-- A constant that opens with none of `@`, `{`, `<`, `[` and `c` is a number or a word. -/
theorem parseConstant_of_head {F : Nat} {ch : Char} (hhead : c.rest.head? = some ch)
    (hb : Cursor.isBlank ch = false) (hs : ch ≠ ';') (h1 : ch ≠ '@') (h2 : ch ≠ '{')
    (h3 : ch ≠ '<') (h4 : ch ≠ '[') (hnc : ch ≠ 'c') :
    (parseConstant (F + 1)).run c =
      (if ch = '-' || isDigitChar ch then parseNumber else wordConstant F).run c := by
  rw [parseConstant, run_bind_ok (run_skipBlanks _ _), Cursor.skipBlanks_of_head hhead hb hs,
    run_bind_ok (run_peek _), hhead]
  split
  · next heq => exact absurd (Option.some.inj heq) h1
  · next heq => exact absurd (Option.some.inj heq) h2
  · next heq => exact absurd (Option.some.inj heq) h3
  · next heq => exact absurd (Option.some.inj heq) h4
  · next ch' _ _ _ _ heq =>
    obtain rfl := Option.some.inj heq
    rw [run_bind_ok (run_peekAt _ _)]
    simp only [hnc, decide_false, Bool.false_and, Bool.false_eq_true, if_false]
  · next heq => cases heq

/-- The letters that open a word constant: the fixed words and the operator keywords. -/
def wordOpeners : List Char := ['t', 'f', 'n', 'z', 'u', 'b', 'g', 's', 'p', 'i', 'a', 'm', 'o', 'x', 'l']

theorem wordOpener_facts : ∀ x ∈ wordOpeners, Cursor.isBlank x = false ∧ x ≠ ';' ∧ x ≠ '@' ∧
    x ≠ '{' ∧ x ≠ '<' ∧ x ≠ '[' ∧ x ≠ 'c' ∧ x ≠ '-' ∧ isDigitChar x = false ∧ x ≠ '*' ∧
      x ≠ '(' :=
  forall_mem_of_all (by decide)

/-- A constant that opens with the letter of a word is read as a word constant. -/
theorem parseConstant_word {F : Nat} {ch : Char} (hhead : c.rest.head? = some ch)
    (hch : ch ∈ wordOpeners) : (parseConstant (F + 1)).run c = (wordConstant F).run c := by
  obtain ⟨hb, hs, h1, h2, h3, h4, hnc, hdash, hdigit, -⟩ := wordOpener_facts ch hch
  rw [parseConstant_of_head hhead hb hs h1 h2 h3 h4 hnc]
  simp [hdash, hdigit]

/-- What a character that ends a constant is not. -/
theorem endsConst_facts {ch : Char} (h : endsConst ch) :
    isNumberChar ch = false ∧ isWordChar ch = false ∧ isNameChar ch = false ∧
      isDigitChar ch = false := by
  simp only [endsConst, Bool.and_eq_true, Bool.not_eq_true'] at h
  refine ⟨h.1.1, h.1.2, h.2, ?_⟩
  cases hd : isDigitChar ch
  · rfl
  · exact absurd (isNumberChar_of_isDigitChar hd) (by rw [h.1.1]; decide)

/-! ## Reading a text piece by piece -/

/-- Text that opens with neither a blank nor a `;`: skipping blanks there does nothing. -/
def NoBlankAhead (r : List Char) : Prop := ∀ ch ∈ r.head?, Cursor.isBlank ch = false ∧ ch ≠ ';'

/-- Text that ends a constant before it: empty, or opened by a character that ends a constant. -/
def StopsConst (r : List Char) : Prop := ∀ ch ∈ r.head?, endsConst ch

/-- `x` reads `text` as `a` before text that `follow` accepts: run where `text` stands and such
text follows, it gives `a` and leaves the cursor right after `text`. -/
def ReadsAt {α : Type} (x : Reader α) (text : List Char) (follow : List Char → Prop) (a : α) :
    Prop :=
  ∀ (c : Cursor) (r : List Char), c.rest = text ++ r → follow r →
    x.run c = .ok (a, c.advance text.length)

/-- A reader that starts by skipping blanks reads the same where they are already skipped. -/
def SkipsBlanks {α : Type} (x : Reader α) : Prop :=
  ∀ c : Cursor, x.run (c.skipBlanks true) = x.run c

theorem skipBlanks_of_noBlankAhead (h : NoBlankAhead c.rest) (nl : Bool) : c.skipBlanks nl = c := by
  cases hr : c.rest with
  | nil =>
    rw [Cursor.skipBlanks, hr, Cursor.skipBlanksFrom]
    rw [← hr]
  | cons ch r =>
    rw [hr] at h
    exact Cursor.skipBlanks_of_head (by rw [hr]; rfl) (h ch rfl).1 (h ch rfl).2 nl

namespace ReadsAt

variable {α β : Type} {x y : Reader α} {f : α → Reader β} {t t₁ t₂ : List Char}
  {F G : List Char → Prop} {a : α} {b : β}

theorem pure (a : α) : ReadsAt (Pure.pure a : Reader α) [] F a := fun _ _ _ _ => rfl

/-- Reading one text and then another reads the two in a row, when the text after the second is
what the first allows after it. -/
theorem bind {F₁ : List Char → Prop} (hx : ReadsAt x t₁ F₁ a) (hf : ReadsAt (f a) t₂ F b)
    (hF : ∀ r, F r → F₁ (t₂ ++ r)) : ReadsAt (x >>= f) (t₁ ++ t₂) F b := by
  intro c r hc hr
  have hc₁ : c.rest = t₁ ++ (t₂ ++ r) := by rw [hc, List.append_assoc]
  rw [run_bind_ok (hx c _ hc₁ (hF r hr)), hf _ r (Cursor.rest_advance_append t₁ hc₁) hr,
    Cursor.advance_advance, List.length_append]

theorem mono (h : ReadsAt x t F a) (hG : ∀ r, G r → F r) : ReadsAt x t G a :=
  fun c r hc hr => h c r hc (hG r hr)

theorem of_text_eq {t' : List Char} (h : ReadsAt x t F a) (ht : t = t') : ReadsAt x t' F a :=
  ht ▸ h

/-- Reading a text and returning what is made of its value. -/
theorem bind_pure {g : α → β} (hx : ReadsAt x t F a) :
    ReadsAt (x >>= fun v => Pure.pure (g v)) t F (g a) := by
  intro c r hc hr
  rw [run_bind_ok (hx c r hc hr)]
  rfl

/-- The cursor a reader notes does not change what follows reads. -/
theorem get_bind {k : Cursor → Reader α} (h : ∀ s, ReadsAt (k s) t F a) : ReadsAt (get >>= k) t F a := by
  intro c r hc hr
  rw [run_bind_ok (run_get c)]
  exact h c c r hc hr

/-- A reader that skips blanks first reads its text after a space too. -/
theorem space (hskip : SkipsBlanks x) (h : ReadsAt x t F a) : ReadsAt x (' ' :: t) F a := by
  intro c r hc hr
  have h1 : (c.advance 1).rest = t ++ r := Cursor.rest_advance_append [' '] (by rw [hc]; rfl)
  rw [← hskip c, Cursor.skipBlanks_space hc, hskip, h _ r h1 hr, Cursor.advance_advance,
    List.length_cons, Nat.add_comm]

end ReadsAt

theorem skipsBlanks_skip_bind {α : Type} (y : Unit → Reader α) :
    SkipsBlanks (skipBlanks true >>= y) := by
  intro c
  rw [run_bind_ok (run_skipBlanks _ _), run_bind_ok (run_skipBlanks _ _),
    Cursor.skipBlanks_skipBlanks]

theorem SkipsBlanks.bind {α β : Type} {x : Reader α} (h : SkipsBlanks x) (f : α → Reader β) :
    SkipsBlanks (x >>= f) := by
  intro c
  rw [StateT.run_bind, StateT.run_bind, h c]

theorem skipsBlanks_tryChar (ch : Char) : SkipsBlanks (tryChar ch) := skipsBlanks_skip_bind _

theorem skipsBlanks_expect (ch : Char) : SkipsBlanks (expect ch) := (skipsBlanks_tryChar ch).bind _

theorem skipsBlanks_readLocal : SkipsBlanks readLocal := (skipsBlanks_expect '%').bind _

theorem skipsBlanks_tryWord (w : String) : SkipsBlanks (tryWord w) :=
  (skipsBlanks_skip_bind _).bind _

theorem skipsBlanks_expectWord (w : String) : SkipsBlanks (expectWord w) :=
  (skipsBlanks_tryWord w).bind _

theorem skipsBlanks_parseType (f : Nat) : SkipsBlanks (parseType (f + 1)) := by
  rw [parseType]
  exact skipsBlanks_skip_bind _

theorem skipsBlanks_parseTypedConst (f : Nat) : SkipsBlanks (parseTypedConst (f + 2)) := by
  rw [parseTypedConst]
  exact (skipsBlanks_parseType f).bind _

theorem skipsBlanks_typedConstListRest (f : Nat) (close : Char) :
    SkipsBlanks (typedConstListRest (f + 3) close) := by
  rw [typedConstListRest]
  exact (skipsBlanks_parseTypedConst f).bind _

/-! ### The pieces -/

/-- Reading after skipping blanks and looking at the next character, then what the character
selects. -/
theorem readsAt_skip_peek {α : Type} {k : Option Char → Reader α} {ch : Char} {t : List Char}
    {F : List Char → Prop} {a : α} (hhead : t.head? = some ch) (hb : Cursor.isBlank ch = false)
    (hs : ch ≠ ';') (h : ReadsAt (k (some ch)) t F a) :
    ReadsAt (skipBlanks true >>= fun _ => peek >>= k) t F a := by
  intro c r hc hr
  obtain ⟨tl, htl⟩ := List.head?_eq_some_iff.mp hhead
  have hhead' : c.rest.head? = some ch := by rw [hc, htl]; rfl
  rw [run_bind_ok (run_skipBlanks _ _), Cursor.skipBlanks_of_head hhead' hb hs,
    run_bind_ok (run_peek _), hhead']
  exact h c r hc hr

theorem readsAt_advance {F : List Char → Prop} (x : Char) : ReadsAt (advance 1) [x] F () :=
  fun _ _ _ _ => rfl

theorem readsAt_expect {F : List Char → Prop} {ch : Char} (hb : Cursor.isBlank ch = false)
    (hs : ch ≠ ';') : ReadsAt (expect ch) [ch] F () :=
  fun _ _ hc _ => run_expect_at hc hb hs

theorem readsAt_tryChar_hit {F : List Char → Prop} {ch : Char} (hb : Cursor.isBlank ch = false)
    (hs : ch ≠ ';') : ReadsAt (tryChar ch) [ch] F true := by
  intro c r hc _
  have hskip := Cursor.skipBlanks_of_head (show c.rest.head? = some ch by rw [hc]; rfl) hb hs true
  rw [run_tryChar_hit (by rw [hskip, hc]; rfl), hskip]
  rfl

theorem readsAt_tryChar_miss {ch : Char} :
    ReadsAt (tryChar ch) [] (fun r => NoBlankAhead r ∧ r.head? ≠ some ch) false := by
  intro c r hc hr
  have hskip := skipBlanks_of_noBlankAhead (by rw [hc]; exact hr.1) true
  rw [run_tryChar_miss (by rw [hskip, hc]; exact hr.2), hskip]
  rfl

/-- A word character is neither a blank nor a `;`. -/
theorem noBlankAhead_of_word {w r : List Char} (hne : w ≠ []) (hw : ∀ x ∈ w, isWordChar x) :
    NoBlankAhead (w ++ r) := by
  obtain ⟨x, xs, rfl⟩ := List.exists_cons_of_ne_nil hne
  intro ch hch
  obtain rfl : x = ch := Option.some.inj hch
  have hx := hw x List.mem_cons_self
  refine ⟨?_, fun h => absurd (h ▸ hx) (by decide)⟩
  cases hb : Cursor.isBlank x
  · rfl
  · simp only [Cursor.isBlank, Bool.or_eq_true, decide_eq_true_eq] at hb
    rcases hb with (((rfl | rfl) | rfl) | rfl) | rfl <;> exact absurd hx (by decide)

theorem readsAt_readWord {w : List Char} (hne : w ≠ []) (hw : ∀ x ∈ w, isWordChar x) :
    ReadsAt readWord w (fun r => ∀ x ∈ r.head?, isWordChar x = false) (String.ofList w) := by
  intro c r hc hr
  have hskip := skipBlanks_of_noBlankAhead (by rw [hc]; exact noBlankAhead_of_word hne hw) true
  rw [run_readWord (by rw [hskip]; exact WordAt.of_append hc hne hw hr), hskip]

/-- Reading a word, after skipping blanks and noting where the word starts, and then what the
word selects. -/
theorem readsAt_word_then {α : Type} {k : Cursor → String → Reader α} {w tail : List Char}
    {F : List Char → Prop} {a : α} (hne : w ≠ []) (hword : ∀ x ∈ w, isWordChar x)
    (htail : ∀ r, F r → ∀ x ∈ (tail ++ r).head?, isWordChar x = false)
    (h : ∀ s, ReadsAt (k s (String.ofList w)) tail F a) :
    ReadsAt (skipBlanks true >>= fun _ => get >>= fun s => readWord >>= k s) (w ++ tail) F a := by
  intro c r hc hr
  have hskip := skipBlanks_of_noBlankAhead
    (by rw [hc, List.append_assoc]; exact noBlankAhead_of_word hne hword) true
  rw [run_bind_ok (run_skipBlanks _ _), hskip]
  exact ReadsAt.get_bind (fun s => ReadsAt.bind (readsAt_readWord hne hword) (h s) htail) c r hc hr

theorem readsAt_tryWord_miss {w : String} :
    ReadsAt (tryWord w) [] (fun r => NoBlankAhead r ∧ ∀ x ∈ r.head?, isWordChar x = false)
      false := by
  intro c r hc hr
  have hskip := skipBlanks_of_noBlankAhead (by rw [hc]; exact hr.1) true
  rw [run_tryWord_miss (by rw [hskip, hc]; exact hr.2), hskip]
  rfl

theorem readsAt_tryWord_hit {w : String} (hne : w.toList ≠ []) (hw : ∀ x ∈ w.toList, isWordChar x) :
    ReadsAt (tryWord w) w.toList (fun r => ∀ x ∈ r.head?, isWordChar x = false) true := by
  intro c r hc hr
  have hskip := skipBlanks_of_noBlankAhead (by rw [hc]; exact noBlankAhead_of_word hne hw) true
  rw [run_tryWord_hit (by rw [hskip]; exact WordAt.of_append hc hne hw hr), hskip,
    String.length_toList]

theorem readsAt_expectWord {w : String} (hne : w.toList ≠ []) (hw : ∀ x ∈ w.toList, isWordChar x) :
    ReadsAt (expectWord w) w.toList (fun r => ∀ x ∈ r.head?, isWordChar x = false) () := by
  intro c r hc hr
  have hskip := skipBlanks_of_noBlankAhead (by rw [hc]; exact noBlankAhead_of_word hne hw) true
  rw [run_expectWord (by rw [hskip]; exact WordAt.of_append hc hne hw hr), hskip,
    String.length_toList]

theorem readsAt_readGlobalName (name : String) :
    ReadsAt readGlobalName (Text.globalName name).toList
      (fun r => Text.isBare name → ∀ x ∈ r.head?, isNameChar x = false) name := by
  intro c r hc hr
  have hskip : c.skipBlanks true = c :=
    Cursor.skipBlanks_of_head (by rw [hc, toList_globalName]; rfl) (by decide) (by decide) true
  rw [run_readGlobalName (by rw [hskip]; exact hc) hr, hskip, String.length_toList]

theorem LocalIdent.toList_render (i : LocalIdent) : ∃ tl, i.render.toList = '%' :: tl := by
  cases i with
  | named name => exact ⟨_, toList_localName name⟩
  | anon id => exact ⟨_, toList_render_anon id⟩

theorem readsAt_readLocal {i : LocalIdent} (hid : ∀ id, i = .anon id → id < bound32) :
    ReadsAt readLocal i.render.toList
      (fun r => ∀ x ∈ r.head?, isNameChar x = false ∧ isDigitChar x = false) i.toName := by
  intro c r hc hr
  obtain ⟨tl, htl⟩ := LocalIdent.toList_render i
  have hskip : c.skipBlanks true = c :=
    Cursor.skipBlanks_of_head (by rw [hc, htl]; rfl) (by decide) (by decide) true
  rw [run_readLocal_ident (by rw [hskip]; exact hc) hr hid, hskip, String.length_toList]

/-- A type read where the text after it neither continues it nor opens with a blank. -/
theorem readsAt_parseType {t : Ty} (h : ReadsBack t) {fuel : Nat} (hf : t.readDepth + 1 ≤ fuel) :
    ReadsAt (parseType fuel) t.render.toList
      (fun r => (∀ ch ∈ r.head?, t.continuesWith ch = false) ∧ stopsSuffixes r ∧ NoBlankAhead r)
      t := by
  intro c r hc hr
  have hafter : (c.advance t.render.length).rest = r := by
    rw [← String.length_toList]
    exact Cursor.rest_advance_append _ hc
  rw [h.run_eq_ok hf hc hr.1 hr.2.1,
    skipBlanks_of_noBlankAhead (by rw [hafter]; exact hr.2.2), String.length_toList]

/-- A type read with the space after it, which the reader skips. -/
theorem readsAt_parseType_space {t : Ty} (h : ReadsBack t) {fuel : Nat}
    (hf : t.readDepth + 1 ≤ fuel) :
    ReadsAt (parseType fuel) (t.render.toList ++ [' ']) (fun r => stopsSuffixes r ∧ NoBlankAhead r)
      t := by
  intro c r hc hr
  have hc' : c.rest = t.render.toList ++ ' ' :: r := by rw [hc, List.append_assoc]; rfl
  have hafter : (c.advance t.render.length).rest = ' ' :: r := by
    rw [← String.length_toList]
    exact Cursor.rest_advance_append _ hc'
  have hspace : t.continuesWith ' ' = false := Ty.continuesWith_eq_false (by decide) (by decide)
  have hafter₁ : (c.advance (t.render.length + 1)).rest = r := by
    rw [← Cursor.advance_advance]
    exact Cursor.rest_advance_append [' '] hafter
  rw [h.run_eq_ok hf hc' (fun ch hch => by cases hch; exact hspace)
      (by rw [stopsSuffixes_space]; exact hr.1),
    Cursor.skipBlanks_space hafter, Cursor.advance_advance,
    skipBlanks_of_noBlankAhead (by rw [hafter₁]; exact hr.2), List.length_append,
    String.length_toList]
  rfl

/-! ## Reading a constant back -/

/-- The text of `k` reads back: reading at it, followed by a character that ends it, gives the
written constant `k.toAst` with the cursor right after the text. The text starts with neither a
blank nor a `;`, and does not go on with a suffix of a type written before it. -/
structure ConstReadsBack (k : LlvmAsm.Const) : Prop where
  reads : ∀ fuel, k.readDepth ≤ fuel →
    ReadsAt (parseConstant fuel) k.render.toList StopsConst k.toAst
  head : ∃ ch, k.render.toList.head? = some ch ∧ Cursor.isBlank ch = false ∧ ch ≠ ';'
  stops : ∀ rest, StopsConst rest → stopsSuffixes (k.render.toList ++ rest)

/-- A number: read as a float literal when shaped as one, as an integer literal otherwise. -/
theorem constReadsBack_number {k : LlvmAsm.Const} (hd : k.readDepth = 2)
    (hnum : NumberText k.render.toList)
    (hast : k.toAst = if isFloatText k.render.toList then .float k.render else .int k.render) :
    ConstReadsBack k := by
  obtain ⟨ch, tl, htext⟩ := List.exists_cons_of_ne_nil hnum.ne_nil
  have hch : ch = '-' ∨ isDigitChar ch := hnum.head ch (by rw [htext]; rfl)
  obtain ⟨hb, hs, h1, h2, h3, h4, hnc, hstar, hparen, ha⟩ := numberHead_facts hch
  refine ⟨fun fuel hf c rest hc hrest => ?_, ⟨ch, by rw [htext]; rfl, hb, hs⟩, fun rest _ => ?_⟩
  · obtain ⟨F, rfl⟩ : ∃ F, fuel = F + 1 := ⟨fuel - 1, by omega⟩
    have hhead : c.rest.head? = some ch := by rw [hc, htext]; rfl
    have hsel : (ch = '-' || isDigitChar ch) = true := by
      rcases hch with rfl | hdig <;> simp [*]
    rw [parseConstant_of_head hhead hb hs h1 h2 h3 h4 hnc, if_pos hsel,
      run_parseNumber hc hnum.chars fun x hx => (endsConst_facts (hrest x hx)).1,
      String.ofList_toList, hast]
  · rw [htext, List.cons_append]
    exact stopsSuffixes_of_head hb hs hstar hparen (takeWhile_ne_addrspace ha)

/-- A constant whose text opens with a word, read by `wordConstant`. -/
theorem constReadsBack_word {k : LlvmAsm.Const} {w tail : List Char}
    (htext : k.render.toList = w ++ tail) (hd : 2 ≤ k.readDepth) (hword : ∀ x ∈ w, isWordChar x) (htail : ∀ x ∈ tail.head?, isWordChar x = false)
    (hhead : ∃ ch ∈ wordOpeners, w.head? = some ch) (haddr : w ≠ "addrspace".toList)
    (hrun : ∀ g, k.readDepth ≤ g + 2 →
      ReadsAt (wordConstant (g + 1)) k.render.toList StopsConst k.toAst) :
    ConstReadsBack k := by
  obtain ⟨ch, hch, hh⟩ := hhead
  obtain ⟨tl, hw⟩ := List.head?_eq_some_iff.mp hh
  obtain ⟨hb, hs, -, -, -, -, -, -, -, hstar, hparen⟩ := wordOpener_facts ch hch
  -- after the word comes the rest of the text, or what follows the text
  have hafter : ∀ rest, StopsConst rest → ∀ x ∈ (tail ++ rest).head?, isWordChar x = false := by
    intro rest hrest x hx
    cases tail with
    | nil => exact (endsConst_facts (hrest x hx)).2.1
    | cons y ys => exact htail x hx
  refine ⟨fun fuel hf c rest hc hrest => ?_, ⟨ch, by rw [htext, hw]; rfl, hb, hs⟩,
    fun rest hrest => ?_⟩
  · obtain ⟨g, rfl⟩ : ∃ g, fuel = g + 2 := ⟨fuel - 2, by omega⟩
    have hhead : c.rest.head? = some ch := by rw [hc, htext, hw]; rfl
    rw [parseConstant_word hhead hch]
    exact hrun g hf c rest hc hrest
  · have htake : (k.render.toList ++ rest).takeWhile isWordChar = w := by
      rw [htext, List.append_assoc]
      exact takeWhile_append_of_stop hword (hafter rest hrest)
    have hw' : (k.render.toList ++ rest).takeWhile isWordChar ≠ "addrspace".toList := by
      rw [htake]
      exact haddr
    rw [htext, hw, List.cons_append, List.cons_append] at hw' ⊢
    exact stopsSuffixes_of_head hb hs hstar hparen hw'

/-- The constants written as fixed words. -/
def fixedWord? (w : String) : Option Ast.Const :=
  if w = "true" then some (.bool true)
  else if w = "false" then some (.bool false)
  else if w = "null" then some .null
  else if w = "none" then some .none
  else if w = "zeroinitializer" then some .zeroInit
  else if w = "undef" then some .undef
  else none

/-- A fixed word is read as its constant. -/
theorem readsAt_wordConstant_fixed {g : Nat} {w : String} {a : Ast.Const}
    (h : fixedWord? w = some a) (hne : w.toList ≠ []) (hword : ∀ x ∈ w.toList, isWordChar x) :
    ReadsAt (wordConstant (g + 1)) w.toList (fun r => ∀ x ∈ r.head?, isWordChar x = false) a := by
  rw [wordConstant, ← List.append_nil w.toList]
  refine readsAt_word_then hne hword (fun r hr => hr) fun _ => ?_
  rw [String.ofList_toList]
  unfold fixedWord? at h
  split_ifs at h <;> cases h <;> subst w <;> exact ReadsAt.pure _

/-- A constant written as one of the fixed words. -/
theorem constReadsBack_fixedWord {k : LlvmAsm.Const} {w : String} (hrender : k.render = w)
    (hd : k.readDepth = 2) (hfixed : fixedWord? w = some k.toAst) (hne : w.toList ≠ [])
    (hword : ∀ x ∈ w.toList, isWordChar x) (hhead : ∃ ch ∈ wordOpeners, w.toList.head? = some ch)
    (haddr : w.toList ≠ "addrspace".toList) : ConstReadsBack k :=
  constReadsBack_word (by rw [hrender, List.append_nil]) (by omega) hword (fun _ hx => by cases hx)
    hhead haddr fun _ _ => by
      rw [hrender]
      exact (readsAt_wordConstant_fixed hfixed hne hword).mono fun r hr x hx =>
        (endsConst_facts (hr x hx)).2.1

theorem constReadsBack_null (t : Ty) : ConstReadsBack (.null t) :=
  constReadsBack_fixedWord (w := "null") rfl rfl rfl (by decide) (forall_mem_of_all (by decide))
    ⟨'n', by decide, rfl⟩ (by decide)

theorem constReadsBack_none : ConstReadsBack .none :=
  constReadsBack_fixedWord (w := "none") rfl rfl rfl (by decide) (forall_mem_of_all (by decide))
    ⟨'n', by decide, rfl⟩ (by decide)

theorem constReadsBack_zeroInit (t : Ty) : ConstReadsBack (.zeroInit t) :=
  constReadsBack_fixedWord (w := "zeroinitializer") rfl rfl rfl (by decide)
    (forall_mem_of_all (by decide)) ⟨'z', by decide, rfl⟩ (by decide)

theorem constReadsBack_undef (t : Ty) : ConstReadsBack (.undef t) :=
  constReadsBack_fixedWord (w := "undef") rfl rfl rfl (by decide) (forall_mem_of_all (by decide))
    ⟨'u', by decide, rfl⟩ (by decide)

/-- An integer constant: `true` or `false` at width one, its decimal text otherwise. -/
theorem constReadsBack_int (i : IntConst) : ConstReadsBack (.int i) := by
  by_cases h1 : i.bits = 1
  · have hast : (LlvmAsm.Const.int i).toAst = .bool (i.value != 0) := if_pos h1
    by_cases h0 : i.value = 0
    · have hrender : (LlvmAsm.Const.int i).render = "false" := by
        show i.render = _
        rw [IntConst.render, if_pos h1, if_pos h0]
      exact constReadsBack_fixedWord hrender rfl (by rw [hast, h0]; rfl) (by decide)
        (forall_mem_of_all (by decide)) ⟨'f', by decide, rfl⟩ (by decide)
    · have hrender : (LlvmAsm.Const.int i).render = "true" := by
        show i.render = _
        rw [IntConst.render, if_pos h1, if_neg h0]
      have hne : (i.value != 0) = true := by simpa using h0
      exact constReadsBack_fixedWord hrender rfl (by rw [hast, hne]; rfl) (by decide)
        (forall_mem_of_all (by decide)) ⟨'t', by decide, rfl⟩ (by decide)
  · have hrender : (LlvmAsm.Const.int i).render = toString i.value := by
      show i.render = _
      rw [IntConst.render, if_neg h1]
    have hast : (LlvmAsm.Const.int i).toAst = .int i.render := if_neg h1
    obtain ⟨hnum, hfloat⟩ := numberText_toString_int i.value
    refine constReadsBack_number rfl (by rw [hrender]; exact hnum) ?_
    rw [hast, hrender, hfloat]
    show Ast.Const.int i.render = Ast.Const.int (toString i.value)
    rw [IntConst.render, if_neg h1]

/-- A float constant, when its text reads back. -/
theorem constReadsBack_float {f : FloatConst} (hf : f.ReadsBack) : ConstReadsBack (.float f) := by
  obtain ⟨hnum, hfloat, -⟩ := hf
  refine constReadsBack_number rfl hnum ?_
  rw [show (LlvmAsm.Const.float f).render = f.render from rfl, hfloat]
  rfl

/-- A reference to a global is read as its name. -/
theorem constReadsBack_global (name : String) (t : Ty) : ConstReadsBack (.global name t) := by
  have hrender : (LlvmAsm.Const.global name t).render = Text.globalName name := rfl
  refine ⟨fun fuel hf c rest hc hrest => ?_, ⟨'@', by rw [hrender, toList_globalName]; rfl,
    by decide, by decide⟩, fun rest _ => ?_⟩
  · obtain ⟨F, rfl⟩ : ∃ F, fuel = F + 1 :=
      ⟨fuel - 1, by rw [show (LlvmAsm.Const.global name t).readDepth = 2 from rfl] at hf; omega⟩
    rw [hrender] at hc ⊢
    have hhead : c.rest.head? = some '@' := by rw [hc, toList_globalName]; rfl
    have hskip : c.skipBlanks true = c :=
      Cursor.skipBlanks_of_head hhead (by decide) (by decide) true
    rw [parseConstant, run_bind_ok (run_skipBlanks _ _), hskip, run_bind_ok (run_peek _), hhead]
    simp only
    rw [run_bind_ok (run_readGlobalName (by rw [hskip]; exact hc)
      fun _ x hx => (endsConst_facts (hrest x hx)).2.2.1), hskip]
    rfl
  · rw [hrender, toList_globalName, List.cons_append]
    exact stopsSuffixes_of_head (by decide) (by decide) (by decide) (by decide)
      (takeWhile_ne_addrspace (by decide))

/-- A character array is read as its quoted body, escapes untouched. -/
theorem constReadsBack_chars (data : List UInt8) : ConstReadsBack (.chars data) := by
  have htext : (LlvmAsm.Const.chars data).render.toList =
      'c' :: '"' :: (Text.quoteBody data ++ ['"']) := by
    show ("c" ++ Text.quote data).toList = _
    rw [String.toList_append, Text.toList_quote]
    rfl
  have hlen : (LlvmAsm.Const.chars data).render.toList.length =
      1 + ((Text.quoteBody data).length + 2) := by
    rw [htext]
    simp only [List.length_cons, List.length_append, List.length_nil]
    omega
  refine ⟨fun fuel hf c rest hc hrest => ?_, ⟨'c', by rw [htext]; rfl, by decide, by decide⟩,
    fun rest _ => ?_⟩
  · obtain ⟨F, rfl⟩ : ∃ F, fuel = F + 1 :=
      ⟨fuel - 1, by rw [show (LlvmAsm.Const.chars data).readDepth = 2 from rfl] at hf; omega⟩
    have hhead : c.rest.head? = some 'c' := by rw [hc, htext]; rfl
    have hskip : c.skipBlanks true = c :=
      Cursor.skipBlanks_of_head hhead (by decide) (by decide) true
    have hpeek : c.rest[1]? = some '"' := by rw [hc, htext]; rfl
    have h1 : (c.advance 1).rest = '"' :: Text.quoteBody data ++ '"' :: rest :=
      Cursor.rest_advance_append ['c'] (by rw [hc, htext]; simp)
    rw [parseConstant, run_bind_ok (run_skipBlanks _ _), hskip, run_bind_ok (run_peek _), hhead]
    simp only [Char.reduceEq, imp_self]
    rw [run_bind_ok (run_peekAt _ _), hpeek]
    simp only [decide_true, Bool.true_and, if_true]
    rw [run_bind_ok (run_advance _ _),
      run_bind_ok (run_readRawString h1 fun x hx => (Text.quoteBody_ascii x hx).2), hlen,
      Cursor.advance_advance]
    rfl
  · rw [htext, List.cons_append]
    exact stopsSuffixes_of_head (by decide) (by decide) (by decide) (by decide)
      (takeWhile_ne_addrspace (by decide))

/-- The text of a block address after its word: the function and the block, between
parentheses. -/
theorem toList_render_blockAddress (func : String) (block : LocalIdent) :
    (LlvmAsm.Const.blockAddress func block).render.toList = "blockaddress".toList ++
      (['('] ++ ((Text.globalName func).toList ++ ([','] ++ ((' ' :: block.render.toList) ++
        ([')'] ++ []))))) := by
  show ("blockaddress(" ++ Text.globalName func ++ ", " ++ block.render ++ ")").toList = _
  simp only [String.toList_append, List.append_assoc, List.append_nil]
  rfl

theorem readsAt_blockAddress {g : Nat} {func : String} {block : LocalIdent}
    (hid : ∀ id, block = .anon id → id < bound32) :
    ReadsAt (wordConstant (g + 1)) (LlvmAsm.Const.blockAddress func block).render.toList StopsConst
      (.blockAddress func block.toName) := by
  rw [wordConstant, toList_render_blockAddress]
  refine readsAt_word_then (by decide) (forall_mem_of_all (by decide)) (fun r _ x hx => ?_)
    fun _ => ?_
  · cases hx
    decide
  · rw [String.ofList_toList]
    simp only
    -- `(`, the function, `,`, a space and the block, `)`
    refine ReadsAt.bind (readsAt_expect (F := fun _ => True) (by decide) (by decide)) ?_
      fun _ _ => trivial
    refine ReadsAt.bind (readsAt_readGlobalName func) ?_ fun _ _ _ x hx => ?_
    · refine ReadsAt.bind (readsAt_expect (F := fun _ => True) (by decide) (by decide)) ?_
        fun _ _ => trivial
      refine ReadsAt.bind ((readsAt_readLocal hid).space skipsBlanks_readLocal) ?_
        fun _ _ x hx => ?_
      · exact ReadsAt.bind (readsAt_expect (by decide) (by decide)) (ReadsAt.pure _) fun _ h => h
      · cases hx
        decide
    · cases hx
      decide

/-- A block address, when the block's number fits 32 bits. -/
theorem constReadsBack_blockAddress (func : String) {block : LocalIdent}
    (hid : ∀ id, block = .anon id → id < bound32) :
    ConstReadsBack (.blockAddress func block) :=
  constReadsBack_word (toList_render_blockAddress func block) le_rfl
    (forall_mem_of_all (by decide)) (fun x hx => by cases hx; decide) ⟨'b', by decide, rfl⟩
    (by decide) fun _ _ => readsAt_blockAddress hid

/-! ## Constants written after their types -/

theorem ConstReadsBack.noBlankAhead {k : LlvmAsm.Const} (hk : ConstReadsBack k) (r : List Char) :
    NoBlankAhead (k.render.toList ++ r) := by
  obtain ⟨ch, hch, hb, hs⟩ := hk.head
  obtain ⟨tl, htl⟩ := List.head?_eq_some_iff.mp hch
  intro x hx
  rw [htl, List.cons_append] at hx
  cases hx
  exact ⟨hb, hs⟩

/-- A constant written after its type and a space is read as the pair. -/
theorem readsAt_parseTypedConst {k : LlvmAsm.Const} (hty : ReadsBack k.ty) (hk : ConstReadsBack k)
    {fuel : Nat} (hf : k.ty.readDepth + k.readDepth + 1 ≤ fuel) :
    ReadsAt (parseTypedConst fuel) (k.ty.render.toList ++ ' ' :: k.render.toList) StopsConst
      (.mk k.ty k.toAst) := by
  obtain ⟨F, rfl⟩ : ∃ F, fuel = F + 1 := ⟨fuel - 1, by omega⟩
  have hd := LlvmAsm.Const.two_le_readDepth k
  rw [parseTypedConst]
  refine ReadsAt.of_text_eq (ReadsAt.bind (readsAt_parseType_space hty (by omega))
    (ReadsAt.bind_pure (hk.reads F (by omega))) fun r hr => ⟨hk.stops _ hr, hk.noBlankAhead _⟩)
    (by simp)

/-- Every constant of a list reads back after its type, which reads back too. -/
def ListReadsBack (ks : List LlvmAsm.Const) : Prop := ∀ k ∈ ks, ReadsBack k.ty ∧ ConstReadsBack k

theorem ListReadsBack.tail {k : LlvmAsm.Const} {ks : List LlvmAsm.Const}
    (h : ListReadsBack (k :: ks)) : ListReadsBack ks :=
  fun x hx => h x (List.mem_cons_of_mem k hx)

/-- The brackets that close a list of typed constants. -/
def constClosers : List Char := ['}', ']', '>']

theorem constCloser_facts : ∀ x ∈ constClosers, Cursor.isBlank x = false ∧ x ≠ ';' ∧
    endsConst x ∧ x ≠ ',' ∧ x ∉ Ty.openers :=
  forall_mem_of_all (by decide)

theorem typeOpener_facts : ∀ x ∈ Ty.openers, Cursor.isBlank x = false ∧ x ≠ ';' :=
  forall_mem_of_all (by decide)

/-- The text of a typed constant opens with its type, neither with a blank nor with a closing
bracket. -/
theorem typed_head (k : LlvmAsm.Const) (r : List Char) {close : Char}
    (hclose : close ∈ constClosers) :
    NoBlankAhead ((k.ty.render.toList ++ ' ' :: k.render.toList) ++ r) ∧
      ((k.ty.render.toList ++ ' ' :: k.render.toList) ++ r).head? ≠ some close := by
  obtain ⟨ch, hopen, hch⟩ := Ty.render_head k.ty
  obtain ⟨tl, htl⟩ := List.head?_eq_some_iff.mp hch
  rw [htl]
  refine ⟨fun x hx => ?_, fun h => ?_⟩
  · cases hx
    exact typeOpener_facts ch hopen
  · cases h
    exact (constCloser_facts close hclose).2.2.2.2 hopen

/-- `tryChar` at a closing bracket, after the space a struct puts before it. -/
theorem readsAt_tryChar_pad {F : List Char → Prop} {close : Char} {pad : List Char}
    (hpad : pad = [] ∨ pad = [' ']) (hclose : close ∈ constClosers) :
    ReadsAt (tryChar close) (pad ++ [close]) F true := by
  obtain ⟨hb, hs, -⟩ := constCloser_facts close hclose
  rcases hpad with rfl | rfl
  · exact readsAt_tryChar_hit hb hs
  · exact (readsAt_tryChar_hit hb hs).space (skipsBlanks_tryChar close)

theorem toList_renderTypedList_cons (k k' : LlvmAsm.Const) (ks : List LlvmAsm.Const) :
    (LlvmAsm.Const.renderTypedList (k :: k' :: ks)).toList =
      (k.ty.render.toList ++ ' ' :: k.render.toList) ++
        ',' :: ' ' :: (LlvmAsm.Const.renderTypedList (k' :: ks)).toList := by
  simp [LlvmAsm.Const.renderTypedList]

/-- **Typed constants read up to their closing bracket**, the separators `, ` between them and
the space a struct puts before the bracket read too. -/
theorem readsAt_typedConstListRest {close : Char} (hclose : close ∈ constClosers)
    {pad : List Char} (hpad : pad = [] ∨ pad = [' ']) :
    ∀ {ks : List LlvmAsm.Const} {fuel : Nat}, ks ≠ [] → ListReadsBack ks →
      LlvmAsm.Const.readDepthList ks ≤ fuel →
      ReadsAt (typedConstListRest fuel close)
        ((LlvmAsm.Const.renderTypedList ks).toList ++ (pad ++ [close])) (fun _ => True)
        (LlvmAsm.Const.toAstList ks)
  | [], _, hne, _, _ => absurd rfl hne
  | [k], fuel, _, hks, hf => by
    obtain ⟨hty, hk⟩ := hks k List.mem_cons_self
    simp only [LlvmAsm.Const.readDepthList] at hf
    obtain ⟨F, rfl⟩ : ∃ F, fuel = F + 1 := ⟨fuel - 1, by omega⟩
    obtain ⟨-, -, hends, -⟩ := constCloser_facts close hclose
    rw [typedConstListRest]
    -- the constant, then the closing bracket
    refine ReadsAt.of_text_eq
      (ReadsAt.bind (readsAt_parseTypedConst hty hk (by omega))
        (ReadsAt.bind (readsAt_tryChar_pad (F := fun _ => True) hpad hclose) (ReadsAt.pure _)
          fun _ _ => trivial) fun r _ x hx => ?_) (by simp [LlvmAsm.Const.renderTypedList])
    rcases hpad with rfl | rfl <;> cases hx
    · exact hends
    · rfl
  | k :: k' :: ks, fuel, _, hks, hf => by
    obtain ⟨hty, hk⟩ := hks k List.mem_cons_self
    have hd := LlvmAsm.Const.two_le_readDepth k'
    simp only [LlvmAsm.Const.readDepthList] at hf
    obtain ⟨F, rfl⟩ : ∃ F, fuel = F + 4 := ⟨fuel - 4, by omega⟩
    have hrest := @readsAt_typedConstListRest close hclose pad hpad (k' :: ks) (F + 3)
      (List.cons_ne_nil _ _) hks.tail (by simp only [LlvmAsm.Const.readDepthList]; omega)
    obtain ⟨-, -, -, hcomma, -⟩ := constCloser_facts close hclose
    rw [typedConstListRest]
    -- the constant, no bracket, the `,`, and the others after a space
    refine ReadsAt.of_text_eq
      (ReadsAt.bind (readsAt_parseTypedConst hty hk (by omega))
        (ReadsAt.bind readsAt_tryChar_miss
          (ReadsAt.bind (readsAt_expect (F := fun _ => True) (by decide) (by decide))
            (ReadsAt.bind_pure (hrest.space (skipsBlanks_typedConstListRest F close)))
            fun _ _ => trivial)
          fun _ _ => ⟨fun x hx => ?_, fun h => ?_⟩)
        fun _ _ x hx => ?_) (by simp [toList_renderTypedList_cons])
    · cases hx
      exact ⟨by decide, by decide⟩
    · cases h
      exact hcomma rfl
    · cases hx
      rfl

theorem toList_renderTypedList_head (k : LlvmAsm.Const) (ks : List LlvmAsm.Const) :
    ∃ after, (LlvmAsm.Const.renderTypedList (k :: ks)).toList =
      (k.ty.render.toList ++ ' ' :: k.render.toList) ++ after := by
  cases ks with
  | nil => exact ⟨[], by simp [LlvmAsm.Const.renderTypedList]⟩
  | cons k' ks => exact ⟨_, toList_renderTypedList_cons k k' ks⟩

/-- The text of typed constants up to their closing bracket: the bracket alone when there are
none, else the constants between two `pad`s and then the bracket. -/
def bracketed (pad : List Char) (ks : List LlvmAsm.Const) (close : Char) : List Char :=
  match ks with
  | [] => [close]
  | _ :: _ => pad ++ (LlvmAsm.Const.renderTypedList ks).toList ++ pad ++ [close]

/-- **A bracketed list of typed constants read back**, from after the opening bracket. -/
theorem readsAt_parseTypedConstList {close : Char} (hclose : close ∈ constClosers)
    {pad : List Char} (hpad : pad = [] ∨ pad = [' ']) {ks : List LlvmAsm.Const}
    (hks : ListReadsBack ks) {fuel : Nat} (hf : LlvmAsm.Const.readDepthList ks + 1 ≤ fuel) :
    ReadsAt (parseTypedConstList fuel close) (bracketed pad ks close) (fun _ => True)
      (LlvmAsm.Const.toAstList ks) := by
  obtain ⟨F, rfl⟩ : ∃ F, fuel = F + 1 := ⟨fuel - 1, by omega⟩
  obtain ⟨hb, hs, -⟩ := constCloser_facts close hclose
  rw [parseTypedConstList]
  cases ks with
  | nil =>
    -- the bracket at once
    exact ReadsAt.of_text_eq
      (ReadsAt.bind (readsAt_tryChar_hit (F := fun _ => True) hb hs) (ReadsAt.pure _)
        fun _ _ => trivial) rfl
  | cons k ks =>
    -- past the pad no bracket stands, so the constants follow
    have hmiss : ReadsAt (tryChar close) pad (fun r => NoBlankAhead r ∧ r.head? ≠ some close)
        false := by
      rcases hpad with rfl | rfl
      · exact readsAt_tryChar_miss
      · exact readsAt_tryChar_miss.space (skipsBlanks_tryChar close)
    obtain ⟨after, hafter⟩ := toList_renderTypedList_head k ks
    refine ReadsAt.of_text_eq
      (ReadsAt.bind hmiss (readsAt_typedConstListRest hclose hpad (List.cons_ne_nil _ _) hks
        (by simpa using hf)) fun r _ => ?_) (by simp [bracketed])
    rw [hafter, List.append_assoc, List.append_assoc]
    exact typed_head k _ hclose

theorem toList_renderIndices_cons (k : LlvmAsm.Const) (ks : List LlvmAsm.Const) :
    (LlvmAsm.Const.renderIndices (k :: ks)).toList =
      ',' :: ' ' :: (k.ty.render.toList ++ ' ' :: k.render.toList) ++
        (LlvmAsm.Const.renderIndices ks).toList := by
  simp [LlvmAsm.Const.renderIndices]

/-- The indices of a `getelementptr`, followed by its `)`, end each index before them. -/
theorem stopsConst_renderIndices (ks : List LlvmAsm.Const) {r : List Char}
    (hr : r.head? = some ')') : StopsConst ((LlvmAsm.Const.renderIndices ks).toList ++ r) := by
  intro x hx
  cases ks with
  | nil =>
    rw [show (LlvmAsm.Const.renderIndices []).toList = [] from rfl, List.nil_append, hr] at hx
    cases hx
    decide
  | cons k ks =>
    rw [toList_renderIndices_cons] at hx
    cases hx
    decide

/-- **The indices of a `getelementptr` read back**, each after `, ` and up to the `)`. -/
theorem readsAt_gepIndices : ∀ {ks : List LlvmAsm.Const} {fuel : Nat}, ListReadsBack ks →
    LlvmAsm.Const.readDepthIndices ks ≤ fuel →
    ReadsAt (gepIndices fuel) (LlvmAsm.Const.renderIndices ks).toList (fun r => r.head? = some ')')
      (LlvmAsm.Const.toAstList ks)
  | [], fuel, _, hf => by
    obtain ⟨F, rfl⟩ : ∃ F, fuel = F + 1 :=
      ⟨fuel - 1, by simp only [LlvmAsm.Const.readDepthIndices] at hf; omega⟩
    rw [gepIndices]
    -- no `,`: the `)` follows
    refine ReadsAt.of_text_eq (ReadsAt.bind readsAt_tryChar_miss (ReadsAt.pure _)
      fun r hr => ⟨fun x hx => ?_, fun h => ?_⟩) rfl
    · rw [List.nil_append, hr] at hx
      cases hx
      decide
    · rw [List.nil_append, hr] at h
      cases h
  | k :: ks, fuel, hks, hf => by
    obtain ⟨hty, hk⟩ := hks k List.mem_cons_self
    have hd := LlvmAsm.Const.two_le_readDepth k
    have hty1 := Ty.readDepth_pos k.ty
    simp only [LlvmAsm.Const.readDepthIndices] at hf
    obtain ⟨F, rfl⟩ : ∃ F, fuel = F + 3 := ⟨fuel - 3, by omega⟩
    have hrest := @readsAt_gepIndices ks (F + 2) hks.tail (by omega)
    rw [gepIndices]
    -- `,`, a space and the index, then the others
    exact ReadsAt.of_text_eq
      (ReadsAt.bind (readsAt_tryChar_hit (F := fun _ => True) (by decide) (by decide))
        (ReadsAt.bind ((readsAt_parseTypedConst hty hk (by omega)).space
          (skipsBlanks_parseTypedConst F)) (ReadsAt.bind_pure hrest)
          fun _ hr => stopsConst_renderIndices ks hr)
        fun _ _ => trivial) (by simp [toList_renderIndices_cons])

/-! ## Aggregates -/

/-- A constant read back by the reader its first character selects. The text opens with that
character, which continues no type before it. -/
theorem constReadsBack_of_reads {k : LlvmAsm.Const} {ch : Char}
    (hhead : k.render.toList.head? = some ch) (hb : Cursor.isBlank ch = false) (hs : ch ≠ ';')
    (hstar : ch ≠ '*') (hparen : ch ≠ '(') (ha : ch ≠ 'a')
    (hreads : ∀ fuel, k.readDepth ≤ fuel →
      ReadsAt (parseConstant fuel) k.render.toList StopsConst k.toAst) :
    ConstReadsBack k := by
  obtain ⟨tl, htl⟩ := List.head?_eq_some_iff.mp hhead
  refine ⟨hreads, ⟨ch, hhead, hb, hs⟩, fun rest _ => ?_⟩
  rw [htl, List.cons_append]
  exact stopsSuffixes_of_head hb hs hstar hparen (takeWhile_ne_addrspace ha)

theorem toList_render_struct (ty : Ty) (ks : List LlvmAsm.Const) :
    (LlvmAsm.Const.struct ty false ks).render.toList = '{' :: bracketed [' '] ks '}' := by
  cases ks with
  | nil =>
    rw [show (LlvmAsm.Const.struct ty false []).render = "\x7b\x7d" from rfl]
    simp [bracketed]
  | cons k ks =>
    rw [show (LlvmAsm.Const.struct ty false (k :: ks)).render =
      "\x7b " ++ LlvmAsm.Const.renderTypedList (k :: ks) ++ " \x7d" from rfl]
    simp [bracketed]

theorem toList_render_packed (ty : Ty) (ks : List LlvmAsm.Const) :
    (LlvmAsm.Const.struct ty true ks).render.toList =
      '<' :: '{' :: (bracketed [' '] ks '}' ++ ['>']) := by
  cases ks with
  | nil =>
    rw [show (LlvmAsm.Const.struct ty true []).render = "<\x7b\x7d>" from rfl]
    simp [bracketed]
  | cons k ks =>
    rw [show (LlvmAsm.Const.struct ty true (k :: ks)).render =
      "<\x7b " ++ LlvmAsm.Const.renderTypedList (k :: ks) ++ " \x7d>" from rfl]
    simp [bracketed]

theorem toList_render_array (ty : Ty) (ks : List LlvmAsm.Const) :
    (LlvmAsm.Const.array ty ks).render.toList = '[' :: bracketed [] ks ']' := by
  rw [show (LlvmAsm.Const.array ty ks).render = "[" ++ LlvmAsm.Const.renderTypedList ks ++ "]"
    from rfl]
  cases ks with
  | nil => rfl
  | cons k ks => simp [bracketed]

theorem toList_render_vector (ty : Ty) (ks : List LlvmAsm.Const) :
    (LlvmAsm.Const.vector ty ks).render.toList = '<' :: bracketed [] ks '>' := by
  rw [show (LlvmAsm.Const.vector ty ks).render = "<" ++ LlvmAsm.Const.renderTypedList ks ++ ">"
    from rfl]
  cases ks with
  | nil => rfl
  | cons k ks => simp [bracketed]

/-- A struct: `{`, then its elements up to `}`, with a space inside each bracket. -/
theorem constReadsBack_struct {ty : Ty} {ks : List LlvmAsm.Const} (hks : ListReadsBack ks) :
    ConstReadsBack (.struct ty false ks) := by
  refine constReadsBack_of_reads (show _ = some '{' by rw [toList_render_struct]; rfl) (by decide)
    (by decide) (by decide) (by decide) (by decide) fun fuel hf => ?_
  simp only [LlvmAsm.Const.readDepth] at hf
  obtain ⟨F, rfl⟩ : ∃ F, fuel = F + 1 := ⟨fuel - 1, by omega⟩
  rw [parseConstant, toList_render_struct]
  refine readsAt_skip_peek rfl (by decide) (by decide) ?_
  simp only
  -- `{`, then the elements up to `}`
  exact ReadsAt.bind (readsAt_advance (F := fun _ => True) '{')
    (ReadsAt.bind_pure ((readsAt_parseTypedConstList (by decide) (.inr rfl) hks (by omega)).mono
      fun _ _ => trivial)) fun _ _ => trivial

/-- A packed struct: `<{`, its elements up to `}`, then `>`. -/
theorem constReadsBack_packed {ty : Ty} {ks : List LlvmAsm.Const} (hks : ListReadsBack ks) :
    ConstReadsBack (.struct ty true ks) := by
  refine constReadsBack_of_reads (show _ = some '<' by rw [toList_render_packed]; rfl) (by decide)
    (by decide) (by decide) (by decide) (by decide) fun fuel hf => ?_
  simp only [LlvmAsm.Const.readDepth] at hf
  obtain ⟨F, rfl⟩ : ∃ F, fuel = F + 1 := ⟨fuel - 1, by omega⟩
  rw [parseConstant, toList_render_packed]
  refine readsAt_skip_peek rfl (by decide) (by decide) ?_
  simp only
  -- `<`, the `{` that makes it a struct, the elements up to `}`, then `>`
  exact ReadsAt.of_text_eq (ReadsAt.bind (readsAt_advance (F := fun _ => True) '<')
    (ReadsAt.bind (readsAt_tryChar_hit (F := fun _ => True) (by decide) (by decide))
      (ReadsAt.bind (readsAt_parseTypedConstList (by decide) (.inr rfl) hks (by omega))
        (ReadsAt.bind (readsAt_expect (by decide) (by decide)) (ReadsAt.pure _) fun _ h => h)
        fun _ _ => trivial) fun _ _ => trivial) fun _ _ => trivial) (by simp)

/-- An array: `[`, then its elements up to `]`. -/
theorem constReadsBack_array {ty : Ty} {ks : List LlvmAsm.Const} (hks : ListReadsBack ks) :
    ConstReadsBack (.array ty ks) := by
  refine constReadsBack_of_reads (show _ = some '[' by rw [toList_render_array]; rfl) (by decide)
    (by decide) (by decide) (by decide) (by decide) fun fuel hf => ?_
  simp only [LlvmAsm.Const.readDepth] at hf
  obtain ⟨F, rfl⟩ : ∃ F, fuel = F + 1 := ⟨fuel - 1, by omega⟩
  rw [parseConstant, toList_render_array]
  refine readsAt_skip_peek rfl (by decide) (by decide) ?_
  simp only
  exact ReadsAt.bind (readsAt_advance (F := fun _ => True) '[')
    (ReadsAt.bind_pure ((readsAt_parseTypedConstList (by decide) (.inl rfl) hks (by omega)).mono
      fun _ _ => trivial)) fun _ _ => trivial

/-- The first character of a typed constant is that of its type, which opens every type. -/
theorem head_typed (k : LlvmAsm.Const) (r : List Char) : ∃ ch ∈ Ty.openers,
    k.ty.render.toList.head? = some ch ∧
      ((k.ty.render.toList ++ ' ' :: k.render.toList) ++ r).head? = some ch := by
  obtain ⟨ch, hopen, hch⟩ := Ty.render_head k.ty
  obtain ⟨tl, htl⟩ := List.head?_eq_some_iff.mp hch
  exact ⟨ch, hopen, hch, by rw [htl]; rfl⟩

/-- A vector: `<`, then its elements up to `>`. The reader takes a `{` after the `<` for a packed
struct, so the first element's type must not open with one. -/
theorem constReadsBack_vector {ty : Ty} {ks : List LlvmAsm.Const} (hks : ListReadsBack ks)
    (hopen : ∀ k ∈ ks.head?, k.ty.render.toList.head? ≠ some '{') :
    ConstReadsBack (.vector ty ks) := by
  refine constReadsBack_of_reads (show _ = some '<' by rw [toList_render_vector]; rfl) (by decide)
    (by decide) (by decide) (by decide) (by decide) fun fuel hf => ?_
  simp only [LlvmAsm.Const.readDepth] at hf
  obtain ⟨F, rfl⟩ : ∃ F, fuel = F + 1 := ⟨fuel - 1, by omega⟩
  rw [parseConstant, toList_render_vector]
  refine readsAt_skip_peek rfl (by decide) (by decide) ?_
  simp only
  -- `<`, no `{` after it, then the elements up to `>`
  refine ReadsAt.bind (readsAt_advance (F := fun _ => True) '<')
    (ReadsAt.bind readsAt_tryChar_miss
      (ReadsAt.bind_pure ((readsAt_parseTypedConstList (by decide) (.inl rfl) hks (by omega)).mono
        fun _ _ => trivial)) fun r _ => ?_) fun _ _ => trivial
  cases ks with
  | nil => exact ⟨fun x hx => by cases hx; decide, fun h => by cases h⟩
  | cons k ks =>
    obtain ⟨after, hafter⟩ := toList_renderTypedList_head k ks
    obtain ⟨ch, hch, hty, htyped⟩ := head_typed k (after ++ '>' :: r)
    have htext : bracketed [] (k :: ks) '>' ++ r =
        (k.ty.render.toList ++ ' ' :: k.render.toList) ++ (after ++ '>' :: r) := by
      simp [bracketed, hafter]
    show NoBlankAhead (bracketed [] (k :: ks) '>' ++ r) ∧
      (bracketed [] (k :: ks) '>' ++ r).head? ≠ some '{'
    rw [htext]
    refine ⟨fun x hx => ?_, fun h => hopen k rfl (by rw [hty, ← htyped]; exact h)⟩
    rw [htyped] at hx
    cases hx
    exact typeOpener_facts ch hch

/-! ## Constant expressions -/

/-- The word of a cast: word characters, opening with a letter of `wordOpeners`, not
`addrspace`. -/
theorem castKeyword_facts (op : CastOp) : (∀ x ∈ (Keyword.keyword op).toList, isWordChar x) ∧
    (∃ ch ∈ wordOpeners, (Keyword.keyword op).toList.head? = some ch) ∧
    (Keyword.keyword op).toList ≠ "addrspace".toList ∧ (Keyword.keyword op).toList ≠ [] := by
  cases op <;> exact ⟨forall_mem_of_all (by decide), ⟨_, by decide, rfl⟩, by decide, by decide⟩

/-- The word of a cast is no literal `u0x…` or `s0x…`. -/
theorem startsWith_keyword_cast (op : CastOp) :
    ((Keyword.keyword op).startsWith "u0x" || (Keyword.keyword op).startsWith "s0x") = false := by
  cases op <;> simp [Keyword.keyword]

theorem ofKeyword?_keyword_cast (op : CastOp) :
    (Keyword.ofKeyword? (Keyword.keyword op) : Option CastOp) = some op := by
  cases op <;> rfl

theorem toList_render_cast (op : CastOp) (value : LlvmAsm.Const) (target : Ty) :
    (LlvmAsm.Const.cast op value target).render.toList = (Keyword.keyword op).toList ++
      ' ' :: '(' :: (value.ty.render.toList ++ ' ' :: (value.render.toList ++
        ' ' :: 't' :: 'o' :: ' ' :: (target.render.toList ++ [')']))) := by
  rw [show (LlvmAsm.Const.cast op value target).render = Keyword.keyword op ++ " (" ++
    value.ty.render ++ " " ++ value.render ++ " to " ++ target.render ++ ")" from rfl]
  simp

/-- A cast: its word, then `(`, the value after its type, `to`, the target type and `)`. -/
theorem readsAt_cast {g : Nat} {op : CastOp} {value : LlvmAsm.Const} {target : Ty}
    (hvty : ReadsBack value.ty) (hv : ConstReadsBack value) (htarget : ReadsBack target)
    (hf : value.ty.readDepth + value.readDepth + target.readDepth + 2 ≤ g) :
    ReadsAt (wordConstant (g + 1)) (LlvmAsm.Const.cast op value target).render.toList StopsConst
      (.cast op (.mk value.ty value.toAst) target) := by
  obtain ⟨hword, -, -, hne⟩ := castKeyword_facts op
  obtain ⟨g, rfl⟩ : ∃ g', g = g' + 1 := ⟨g - 1, by have := Ty.readDepth_pos target; omega⟩
  rw [wordConstant, toList_render_cast]
  refine readsAt_word_then hne hword (fun r _ x hx => by cases hx; decide) fun _ => ?_
  rw [String.ofList_toList]
  -- the word is none of the fixed words, so it is looked up as an operator
  split
  case h_9 =>
    rw [if_neg (by rw [startsWith_keyword_cast op]; decide), ofKeyword?_keyword_cast op]
    exact ReadsAt.of_text_eq
      (ReadsAt.bind ((readsAt_expect (F := fun _ => True) (by decide) (by decide)).space
          (skipsBlanks_expect '('))
        (ReadsAt.bind (readsAt_parseTypedConst hvty hv (by omega))
          (ReadsAt.bind ((readsAt_expectWord (w := "to") (by decide)
              (forall_mem_of_all (by decide))).space (skipsBlanks_expectWord "to"))
            (ReadsAt.bind ((readsAt_parseType htarget (by omega)).space (skipsBlanks_parseType g))
              (ReadsAt.bind (readsAt_expect (by decide) (by decide)) (ReadsAt.pure _) fun _ h => h)
              fun _ _ => ⟨fun x hx => by cases hx; exact Ty.continuesWith_eq_false rfl rfl,
                stopsSuffixes_cons (by decide) (by decide) (by decide) (by decide) (by decide),
                fun x hx => by cases hx; decide⟩)
            fun _ _ x hx => by cases hx; decide)
          fun _ _ x hx => by cases hx; decide)
        fun _ _ => trivial) (by simp)
  all_goals
    rename_i heq
    exact absurd heq (by cases op <;> decide)

theorem binaryKeyword_facts (op : BinaryOp) : (∀ x ∈ (Keyword.keyword op).toList, isWordChar x) ∧
    (∃ ch ∈ wordOpeners, (Keyword.keyword op).toList.head? = some ch) ∧
    (Keyword.keyword op).toList ≠ "addrspace".toList ∧ (Keyword.keyword op).toList ≠ [] := by
  cases op <;> exact ⟨forall_mem_of_all (by decide), ⟨_, by decide, rfl⟩, by decide, by decide⟩

theorem startsWith_keyword_binary (op : BinaryOp) :
    ((Keyword.keyword op).startsWith "u0x" || (Keyword.keyword op).startsWith "s0x") = false := by
  cases op <;> simp [Keyword.keyword]

/-- The word of a binary operator names no cast. -/
theorem ofKeyword?_cast_keyword_binary (op : BinaryOp) :
    (Keyword.ofKeyword? (Keyword.keyword op) : Option CastOp) = none := by
  cases op <;> rfl

theorem ofKeyword?_keyword_binary (op : BinaryOp) :
    (Keyword.ofKeyword? (Keyword.keyword op) : Option BinaryOp) = some op := by
  cases op <;> rfl

/-- No flag stands where the next character opens no word. -/
theorem readsAt_tryFlag :
    ReadsAt tryFlag [] (fun r => NoBlankAhead r ∧ ∀ x ∈ r.head?, isWordChar x = false) false :=
  ReadsAt.bind readsAt_tryWord_miss (ReadsAt.bind readsAt_tryWord_miss readsAt_tryWord_miss
    fun _ h => h) fun _ h => h

theorem skipsBlanks_tryFlag : SkipsBlanks tryFlag := (skipsBlanks_tryWord "nuw").bind _

/-- The flags of a binary operator, where none is written: the space after its word. -/
theorem readsAt_skipFlags (f : Nat) : ReadsAt (skipFlags (f + 1)) [' ']
    (fun r => NoBlankAhead r ∧ ∀ x ∈ r.head?, isWordChar x = false) () := by
  rw [skipFlags]
  exact ReadsAt.bind (readsAt_tryFlag.space skipsBlanks_tryFlag) (ReadsAt.pure ()) fun _ h => h

theorem toList_render_binary (op : BinaryOp) (lhs rhs : LlvmAsm.Const) :
    (LlvmAsm.Const.binary op lhs rhs).render.toList = (Keyword.keyword op).toList ++
      ' ' :: '(' :: (lhs.ty.render.toList ++ ' ' :: (lhs.render.toList ++
        ',' :: ' ' :: (rhs.ty.render.toList ++ ' ' :: (rhs.render.toList ++ [')'])))) := by
  rw [show (LlvmAsm.Const.binary op lhs rhs).render = Keyword.keyword op ++ " (" ++
    lhs.ty.render ++ " " ++ lhs.render ++ ", " ++ rhs.ty.render ++ " " ++ rhs.render ++ ")"
    from rfl]
  simp

/-- A binary expression: its word, then `(`, the two operands after their types, and `)`. -/
theorem readsAt_binary {g : Nat} {op : BinaryOp} {lhs rhs : LlvmAsm.Const}
    (hlty : ReadsBack lhs.ty) (hl : ConstReadsBack lhs) (hrty : ReadsBack rhs.ty)
    (hr : ConstReadsBack rhs)
    (hf : lhs.ty.readDepth + lhs.readDepth + rhs.ty.readDepth + rhs.readDepth + 2 ≤ g) :
    ReadsAt (wordConstant (g + 1)) (LlvmAsm.Const.binary op lhs rhs).render.toList StopsConst
      (.binary op (.mk lhs.ty lhs.toAst) (.mk rhs.ty rhs.toAst)) := by
  obtain ⟨hword, -, -, hne⟩ := binaryKeyword_facts op
  have hd := LlvmAsm.Const.two_le_readDepth rhs
  obtain ⟨g, rfl⟩ : ∃ g', g = g' + 2 := ⟨g - 2, by omega⟩
  rw [wordConstant, toList_render_binary]
  refine readsAt_word_then hne hword (fun r _ x hx => by cases hx; decide) fun _ => ?_
  rw [String.ofList_toList]
  -- the word is none of the fixed words and no cast, so it is looked up as a binary operator
  split
  case h_9 =>
    rw [if_neg (by rw [startsWith_keyword_binary op]; decide), ofKeyword?_cast_keyword_binary op,
      ofKeyword?_keyword_binary op]
    exact ReadsAt.of_text_eq
      (ReadsAt.bind (readsAt_skipFlags (g + 1))
        (ReadsAt.bind (readsAt_expect (F := fun _ => True) (by decide) (by decide))
          (ReadsAt.bind (readsAt_parseTypedConst hlty hl (by omega))
            (ReadsAt.bind (readsAt_expect (F := fun _ => True) (by decide) (by decide))
              (ReadsAt.bind ((readsAt_parseTypedConst hrty hr (by omega)).space
                  (skipsBlanks_parseTypedConst g))
                (ReadsAt.bind (readsAt_expect (by decide) (by decide)) (ReadsAt.pure _)
                  fun _ h => h)
                fun _ _ x hx => by cases hx; decide)
              fun _ _ => trivial)
            fun _ _ x hx => by cases hx; decide)
          fun _ _ => trivial)
        fun _ _ => ⟨fun x hx => by cases hx; decide, fun x hx => by cases hx; decide⟩) (by simp)
  all_goals
    rename_i heq
    exact absurd heq (by cases op <;> decide)

/-- The optional `inbounds` after `getelementptr`, with the space before it. -/
theorem readsAt_tryWord_inbounds (b : Bool) :
    ReadsAt (tryWord "inbounds") (if b then ' ' :: "inbounds".toList else [' '])
      (fun r => r.head? = if b then some ' ' else some '(') b := by
  cases b
  · exact (readsAt_tryWord_miss.space (skipsBlanks_tryWord _)).mono fun r hr =>
      ⟨fun x hx => by rw [hr] at hx; cases hx; decide, fun x hx => by rw [hr] at hx; cases hx; decide⟩
  · exact ((readsAt_tryWord_hit (by decide) (forall_mem_of_all (by decide))).space
      (skipsBlanks_tryWord _)).mono fun r hr x hx => by rw [hr] at hx; cases hx; decide

/-- The `(` of a `getelementptr`, after a space when `inbounds` stands before it. -/
theorem readsAt_expect_paren {F : List Char → Prop} (b : Bool) :
    ReadsAt (expect '(') ((if b then [' '] else []) ++ ['(']) F () := by
  cases b
  · exact readsAt_expect (by decide) (by decide)
  · exact (readsAt_expect (by decide) (by decide)).space (skipsBlanks_expect '(')

theorem toList_render_gep (inBounds : Bool) (elem : Ty) (base : LlvmAsm.Const)
    (indices : List LlvmAsm.Const) (ty : Ty) :
    (LlvmAsm.Const.gep inBounds elem base indices ty).render.toList = "getelementptr".toList ++
      ' ' :: ((if inBounds then "inbounds ".toList else []) ++ '(' :: (elem.render.toList ++
        ',' :: ' ' :: (base.ty.render.toList ++ ' ' :: (base.render.toList ++
          ((LlvmAsm.Const.renderIndices indices).toList ++ [')']))))) := by
  rw [show (LlvmAsm.Const.gep inBounds elem base indices ty).render = "getelementptr " ++
    (if inBounds then "inbounds " else "") ++ "(" ++ elem.render ++ ", " ++ base.ty.render ++ " " ++
      base.render ++ LlvmAsm.Const.renderIndices indices ++ ")" from rfl]
  cases inBounds <;> simp

/-- A `getelementptr`: its word, `inbounds` when it stands, then `(`, the element type, the base
after its type, the indices and `)`. -/
theorem readsAt_gep {g : Nat} {inBounds : Bool} {elem : Ty} {base : LlvmAsm.Const}
    {indices : List LlvmAsm.Const} {ty : Ty} (helem : ReadsBack elem) (hbty : ReadsBack base.ty)
    (hb : ConstReadsBack base) (hidx : ListReadsBack indices)
    (hf : elem.readDepth + base.ty.readDepth + base.readDepth +
      LlvmAsm.Const.readDepthIndices indices + 2 ≤ g) :
    ReadsAt (wordConstant (g + 1)) (LlvmAsm.Const.gep inBounds elem base indices ty).render.toList
      StopsConst (.gep inBounds elem (.mk base.ty base.toAst) (LlvmAsm.Const.toAstList indices)) := by
  have hd := LlvmAsm.Const.two_le_readDepth base
  obtain ⟨g, rfl⟩ : ∃ g', g = g' + 2 := ⟨g - 2, by omega⟩
  rw [wordConstant, toList_render_gep]
  refine readsAt_word_then (by decide) (forall_mem_of_all (by decide))
    (fun r _ x hx => by cases hx; decide) fun _ => ?_
  rw [String.ofList_toList]
  simp only
  -- `inbounds` or not, `(`, the element type, `,`, the base, the indices, `)`
  exact ReadsAt.of_text_eq
    (ReadsAt.bind (readsAt_tryWord_inbounds inBounds)
      (ReadsAt.bind (readsAt_expect_paren (F := fun _ => True) inBounds)
        (ReadsAt.bind (readsAt_parseType helem (by omega))
          (ReadsAt.bind (readsAt_expect (F := fun _ => True) (by decide) (by decide))
            (ReadsAt.bind ((readsAt_parseTypedConst hbty hb (by omega)).space
                (skipsBlanks_parseTypedConst g))
              (ReadsAt.bind (readsAt_gepIndices hidx (by omega))
                (ReadsAt.bind (readsAt_expect (by decide) (by decide)) (ReadsAt.pure _)
                  fun _ h => h)
                fun _ _ => rfl)
              fun _ _ => by rw [List.append_assoc]; exact stopsConst_renderIndices indices rfl)
            fun _ _ => trivial)
          fun _ _ => ⟨fun x hx => by cases hx; exact Ty.continuesWith_eq_false rfl rfl,
            stopsSuffixes_cons (by decide) (by decide) (by decide) (by decide) (by decide),
            fun x hx => by cases hx; decide⟩)
        fun _ _ => trivial)
      fun _ _ => by cases inBounds <;> rfl) (by cases inBounds <;> simp)

theorem constReadsBack_cast (op : CastOp) {value : LlvmAsm.Const} {target : Ty}
    (hvty : ReadsBack value.ty) (hv : ConstReadsBack value) (htarget : ReadsBack target) :
    ConstReadsBack (.cast op value target) := by
  obtain ⟨hword, hhead, haddr, -⟩ := castKeyword_facts op
  exact constReadsBack_word (toList_render_cast op value target)
    (LlvmAsm.Const.two_le_readDepth _) hword (fun x hx => by cases hx; decide) hhead haddr
    fun g hf => readsAt_cast hvty hv htarget (by simp only [LlvmAsm.Const.readDepth] at hf; omega)

theorem constReadsBack_binary (op : BinaryOp) {lhs rhs : LlvmAsm.Const} (hlty : ReadsBack lhs.ty)
    (hl : ConstReadsBack lhs) (hrty : ReadsBack rhs.ty) (hr : ConstReadsBack rhs) :
    ConstReadsBack (.binary op lhs rhs) := by
  obtain ⟨hword, hhead, haddr, -⟩ := binaryKeyword_facts op
  exact constReadsBack_word (toList_render_binary op lhs rhs)
    (LlvmAsm.Const.two_le_readDepth _) hword (fun x hx => by cases hx; decide) hhead haddr
    fun g hf => readsAt_binary hlty hl hrty hr (by simp only [LlvmAsm.Const.readDepth] at hf; omega)

theorem constReadsBack_gep (inBounds : Bool) {elem : Ty} {base : LlvmAsm.Const}
    {indices : List LlvmAsm.Const} (ty : Ty) (helem : ReadsBack elem) (hbty : ReadsBack base.ty)
    (hb : ConstReadsBack base) (hidx : ListReadsBack indices) :
    ConstReadsBack (.gep inBounds elem base indices ty) :=
  constReadsBack_word (toList_render_gep inBounds elem base indices ty)
    (LlvmAsm.Const.two_le_readDepth _) (forall_mem_of_all (by decide))
    (fun x hx => by cases hx; decide) ⟨'g', by decide, rfl⟩ (by decide)
    fun g hf => readsAt_gep helem hbty hb hidx (by simp only [LlvmAsm.Const.readDepth] at hf; omega)

/-! ## Every readable constant reads back -/

mutual

/-- **The text of a readable constant reads back**, by recursion on the constant. -/
theorem constReadsBack_of_readable : (k : LlvmAsm.Const) → k.Readable → ConstReadsBack k
  | .int i, _ => constReadsBack_int i
  | .float _, h => constReadsBack_float h
  | .null t, _ => constReadsBack_null t
  | .none, _ => constReadsBack_none
  | .struct _ false ks, h => constReadsBack_struct (listReadsBack_of_readable ks h)
  | .struct _ true ks, h => constReadsBack_packed (listReadsBack_of_readable ks h)
  | .array _ ks, h => constReadsBack_array (listReadsBack_of_readable ks h)
  | .chars data, _ => constReadsBack_chars data
  | .vector _ ks, h => constReadsBack_vector (listReadsBack_of_readable ks h.2) h.1
  | .zeroInit t, _ => constReadsBack_zeroInit t
  | .undef t, _ => constReadsBack_undef t
  | .blockAddress func _, h => constReadsBack_blockAddress func h
  | .global name t, _ => constReadsBack_global name t
  | .cast op value _, h => constReadsBack_cast op (readsBack_of_fits _ h.1)
    (constReadsBack_of_readable value h.2.1) (readsBack_of_fits _ h.2.2)
  | .binary op lhs rhs, h => constReadsBack_binary op (readsBack_of_fits _ h.1)
    (constReadsBack_of_readable lhs h.2.1) (readsBack_of_fits _ h.2.2.1)
    (constReadsBack_of_readable rhs h.2.2.2)
  | .gep inBounds _ base indices ty, h => constReadsBack_gep inBounds ty (readsBack_of_fits _ h.1)
    (readsBack_of_fits _ h.2.1) (constReadsBack_of_readable base h.2.2.1)
    (listReadsBack_of_readable indices h.2.2.2)

theorem listReadsBack_of_readable :
    (ks : List LlvmAsm.Const) → LlvmAsm.Const.ReadableList ks → ListReadsBack ks
  | [], _ => fun _ hk => by cases hk
  | k :: ks, h => by
    intro x hx
    rcases List.mem_cons.mp hx with hx | hx
    · rw [hx]
      exact ⟨readsBack_of_fits _ h.1, constReadsBack_of_readable k h.2.1⟩
    · exact listReadsBack_of_readable ks h.2.2 x hx

end

/-! ## Enough depth to read a constant -/

theorem ConstReadsBack.one_le_length {k : LlvmAsm.Const} (hk : ConstReadsBack k) :
    1 ≤ k.render.toList.length := by
  obtain ⟨ch, hch, -⟩ := hk.head
  obtain ⟨tl, htl⟩ := List.head?_eq_some_iff.mp hch
  rw [htl, List.length_cons]
  omega

/-- A constant written as one token needs depth 2, at most twice its length. -/
theorem readDepth_le_of_token {k : LlvmAsm.Const} (hk : ConstReadsBack k) (hd : k.readDepth = 2) :
    k.readDepth ≤ 2 * k.render.toList.length := by
  have := hk.one_le_length
  omega

theorem length_le_bracketed (pad : List Char) (ks : List LlvmAsm.Const) (close : Char) :
    (LlvmAsm.Const.renderTypedList ks).toList.length ≤ (bracketed pad ks close).length := by
  cases ks with
  | nil => simp [LlvmAsm.Const.renderTypedList]
  | cons k ks =>
    simp only [bracketed, List.length_append, List.length_singleton]
    omega

theorem Ty.readDepth_le_length_toList (t : Ty) : t.readDepth ≤ 2 * t.render.toList.length := by
  rw [String.length_toList]
  exact readDepth_le_length t

mutual

/-- **Reading a readable constant needs at most twice its length in depth.** -/
theorem readDepth_le_length_render :
    (k : LlvmAsm.Const) → k.Readable → k.readDepth ≤ 2 * k.render.toList.length
  | .int i, h => readDepth_le_of_token (constReadsBack_of_readable (.int i) h) rfl
  | .float f, h => readDepth_le_of_token (constReadsBack_of_readable (.float f) h) rfl
  | .null t, h => readDepth_le_of_token (constReadsBack_of_readable (.null t) h) rfl
  | .none, h => readDepth_le_of_token (constReadsBack_of_readable .none h) rfl
  | .chars d, h => readDepth_le_of_token (constReadsBack_of_readable (.chars d) h) rfl
  | .zeroInit t, h => readDepth_le_of_token (constReadsBack_of_readable (.zeroInit t) h) rfl
  | .undef t, h => readDepth_le_of_token (constReadsBack_of_readable (.undef t) h) rfl
  | .blockAddress f b, h =>
    readDepth_le_of_token (constReadsBack_of_readable (.blockAddress f b) h) rfl
  | .global n t, h => readDepth_le_of_token (constReadsBack_of_readable (.global n t) h) rfl
  | .struct ty false ks, h => by
    have hl := readDepthList_le_length_render ks h
    have hb := length_le_bracketed [' '] ks '}'
    rw [toList_render_struct, List.length_cons]
    simp only [LlvmAsm.Const.readDepth]
    omega
  | .struct ty true ks, h => by
    have hl := readDepthList_le_length_render ks h
    have hb := length_le_bracketed [' '] ks '}'
    rw [toList_render_packed, List.length_cons, List.length_cons, List.length_append]
    simp only [LlvmAsm.Const.readDepth]
    omega
  | .array ty ks, h => by
    have hl := readDepthList_le_length_render ks h
    have hb := length_le_bracketed [] ks ']'
    rw [toList_render_array, List.length_cons]
    simp only [LlvmAsm.Const.readDepth]
    omega
  | .vector ty ks, h => by
    have hl := readDepthList_le_length_render ks h.2
    have hb := length_le_bracketed [] ks '>'
    rw [toList_render_vector, List.length_cons]
    simp only [LlvmAsm.Const.readDepth]
    omega
  | .cast op value target, h => by
    have hv := readDepth_le_length_render value h.2.1
    have hvty := Ty.readDepth_le_length_toList value.ty
    have ht := Ty.readDepth_le_length_toList target
    rw [toList_render_cast]
    simp only [LlvmAsm.Const.readDepth, List.length_append, List.length_cons, List.length_nil]
    omega
  | .binary op lhs rhs, h => by
    have hl := readDepth_le_length_render lhs h.2.1
    have hr := readDepth_le_length_render rhs h.2.2.2
    have hlty := Ty.readDepth_le_length_toList lhs.ty
    have hrty := Ty.readDepth_le_length_toList rhs.ty
    rw [toList_render_binary]
    simp only [LlvmAsm.Const.readDepth, List.length_append, List.length_cons, List.length_nil]
    omega
  | .gep inBounds elem base indices ty, h => by
    have hb := readDepth_le_length_render base h.2.2.1
    have hi := readDepthIndices_le_length_render indices h.2.2.2
    have he := Ty.readDepth_le_length_toList elem
    have hbty := Ty.readDepth_le_length_toList base.ty
    rw [toList_render_gep]
    simp only [LlvmAsm.Const.readDepth, List.length_append, List.length_cons, List.length_nil]
    omega

theorem readDepthList_le_length_render : (ks : List LlvmAsm.Const) → LlvmAsm.Const.ReadableList ks →
    LlvmAsm.Const.readDepthList ks ≤ 2 * (LlvmAsm.Const.renderTypedList ks).toList.length
  | [], _ => by simp [LlvmAsm.Const.readDepthList, LlvmAsm.Const.renderTypedList]
  | [k], h => by
    have hk := readDepth_le_length_render k h.2.1
    have hty := Ty.readDepth_le_length_toList k.ty
    simp only [LlvmAsm.Const.readDepthList, LlvmAsm.Const.renderTypedList, String.toList_append,
      List.length_append]
    simp
    omega
  | k :: k' :: ks, h => by
    have hk := readDepth_le_length_render k h.2.1
    have hty := Ty.readDepth_le_length_toList k.ty
    have hrest := readDepthList_le_length_render (k' :: ks) h.2.2
    rw [toList_renderTypedList_cons]
    simp only [LlvmAsm.Const.readDepthList] at hrest ⊢
    simp only [List.length_append, List.length_cons]
    omega

theorem readDepthIndices_le_length_render : (ks : List LlvmAsm.Const) → LlvmAsm.Const.ReadableList ks →
    LlvmAsm.Const.readDepthIndices ks ≤ 2 * (LlvmAsm.Const.renderIndices ks).toList.length + 1
  | [], _ => by simp [LlvmAsm.Const.readDepthIndices]
  | k :: ks, h => by
    have hk := readDepth_le_length_render k h.2.1
    have hty := Ty.readDepth_le_length_toList k.ty
    have hrest := readDepthIndices_le_length_render ks h.2.2
    rw [toList_renderIndices_cons]
    simp only [LlvmAsm.Const.readDepthIndices, List.length_append, List.length_cons]
    omega

end

/-- **Reading the text of a readable constant gives its written form**: at the text of `k`,
followed by text that ends a constant, reading with the depth the reader allows for the text
gives `k.toAst` and moves exactly past the text. -/
theorem parseConstant_render {k : LlvmAsm.Const} (hk : k.Readable) {rest : List Char}
    (hrest : StopsConst rest) (pos : Nat) :
    let c : Cursor := ⟨k.render.toList ++ rest, pos⟩
    (parseConstant (fuelFor c)).run c = .ok (k.toAst, c.advance k.render.length) := by
  intro c
  have hd := readDepth_le_length_render k hk
  have hfuel : k.readDepth ≤ fuelFor c := by
    show k.readDepth ≤ 4 * ((k.render.toList ++ rest).length + 1)
    rw [List.length_append]
    omega
  rw [(constReadsBack_of_readable k hk).reads _ hfuel c rest rfl hrest, String.length_toList]

end Ast.Reader

namespace Ast.Reader

/-- A vector of pointers to a literal struct, checked from an element written through an alias of
that pointer type: its text opens with `<{` and reading it fails at the `}` of the struct type. -/
theorem structPointerVector_text_unreadable :
    let s : Scope := { types := ⟨[("P", some (.ptr (.struct false [.int 32])))]⟩ }
    let expected : Ty := .vector 1 (.ptr (.struct false [.int 32]))
    let k : LlvmAsm.Const := .vector expected [.null (.ptr (.struct false [.int 32]))]
    let c : Cursor := ⟨k.render.toList, 0⟩
    (s.lowerConst expected (.vector [.mk (.named "P") .null])).run.run {} = (.ok k, {}) ∧
      k.render = "<\x7b i32 \x7d* null>" ∧
      (parseConstant (fuelFor c)).run c = .error ⟨7, "expected keyword but found '\x7d'"⟩ :=
  ⟨rfl, rfl, rfl⟩

end Ast.Reader

end LlvmAsm
