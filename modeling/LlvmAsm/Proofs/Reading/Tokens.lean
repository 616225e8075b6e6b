import LlvmAsm.Proofs.Text.Names
import LlvmAsm.Ast.Cursor

/-!
# `Proofs.Reading.Tokens` — the reading primitives on written text

Every grammar rule is built from a few primitives on the cursor: skipping blanks, looking at the
next character, moving past characters, and reading a word, a number or a name. This module says
what each primitive does when the cursor stands at text that a printer wrote, so that the rules can
be followed through written text without opening the primitives again:

* cursor moves compose (`Cursor.advance_add`), and skipping blanks at a space is moving past it
  (`Cursor.skipBlanks_space`), while at a character that is neither blank nor `;` it does nothing
  (`Cursor.skipBlanks_of_head`);
* a written word, number or name followed by a character that cannot continue it is read whole
  and the cursor stops right after it (`run_readWord`, `run_readNumber`, `run_readName`);
  in particular a quoted name decodes to the name that was quoted.

All statements are about `StateT.run` of a reader at a cursor; `run_bind_ok` chains them.
-/

namespace LlvmAsm.Ast

namespace Cursor

theorem advance_add (c : Cursor) (m n : Nat) : c.advance (m + n) = (c.advance m).advance n := by
  induction m generalizing c with
  | zero => rw [Nat.zero_add]; rfl
  | succ m ih =>
    rw [Nat.add_right_comm, advance, advance, ih]

theorem advance_advance (c : Cursor) (m n : Nat) : (c.advance m).advance n = c.advance (m + n) :=
  (advance_add c m n).symm

theorem rest_advance (c : Cursor) (n : Nat) : (c.advance n).rest = c.rest.drop n := by
  induction n generalizing c with
  | zero => rfl
  | succ n ih =>
    rw [advance, ih, next]
    split <;> simp_all

/-- Moving past a written text leaves the cursor at what follows it. -/
theorem rest_advance_append {c : Cursor} (xs : List Char) {r : List Char} (h : c.rest = xs ++ r) :
    (c.advance xs.length).rest = r := by
  rw [rest_advance, h, List.drop_left]

/-- Skipping blanks where none stands does nothing. -/
theorem skipBlanks_of_head {c : Cursor} {ch : Char} (hc : c.rest.head? = some ch)
    (hb : isBlank ch = false) (hs : ch ≠ ';') (nl : Bool) : c.skipBlanks nl = c := by
  obtain ⟨r, hr⟩ := List.head?_eq_some_iff.mp hc
  rw [skipBlanks, hr, skipBlanksFrom, if_neg Bool.false_ne_true, if_neg hs, hb,
    if_neg Bool.false_ne_true]
  rw [← hr]

/-- Skipping blanks at a space moves past it and goes on. -/
theorem skipBlanks_space {c : Cursor} {r : List Char} (hc : c.rest = ' ' :: r) (nl : Bool) :
    c.skipBlanks nl = (c.advance 1).skipBlanks nl := by
  have hnext : c.advance 1 = ⟨r, c.pos + 1⟩ := by
    rw [advance, advance, next, hc]
    rfl
  rw [skipBlanks, hc, hnext, skipBlanks, skipBlanksFrom]
  simp [isBlank]

end Cursor

namespace Reader

variable {α β : Type} {c c' : Cursor}

theorem run_bind_ok {x : Reader α} {f : α → Reader β} {a : α} (h : x.run c = .ok (a, c')) :
    (x >>= f).run c = (f a).run c' := by
  simp only [StateT.run_bind, h]
  rfl

theorem run_pure (a : α) (c : Cursor) : (pure a : Reader α).run c = .ok (a, c) := rfl

theorem run_skipBlanks (nl : Bool) (c : Cursor) :
    (skipBlanks nl).run c = .ok ((), c.skipBlanks nl) := rfl

theorem run_get (c : Cursor) : (get : Reader Cursor).run c = .ok (c, c) := rfl

theorem run_peek (c : Cursor) : peek.run c = .ok (c.rest.head?, c) := rfl

theorem run_advance (n : Nat) (c : Cursor) : (advance n).run c = .ok ((), c.advance n) := rfl

/-- `tryChar` consumes the character it finds after the blanks. -/
theorem run_tryChar_hit {ch : Char} (h : (c.skipBlanks true).rest.head? = some ch) :
    (tryChar ch).run c = .ok (true, (c.skipBlanks true).advance 1) := by
  simp only [tryChar, bind_pure_comp]
  rw [run_bind_ok (run_skipBlanks _ _), run_bind_ok (run_peek _), if_pos h]
  rfl

/-- `tryChar` only skips the blanks when another character follows them. -/
theorem run_tryChar_miss {ch : Char} (h : (c.skipBlanks true).rest.head? ≠ some ch) :
    (tryChar ch).run c = .ok (false, c.skipBlanks true) := by
  simp only [tryChar, bind_pure_comp]
  rw [run_bind_ok (run_skipBlanks _ _), run_bind_ok (run_peek _), if_neg h]
  rfl

theorem run_expect {ch : Char} (h : (c.skipBlanks true).rest.head? = some ch) :
    (expect ch).run c = .ok ((), (c.skipBlanks true).advance 1) := by
  simp only [expect]
  rw [run_bind_ok (run_tryChar_hit h)]
  rfl

/-- A property of every character of a literal list, decided one character at a time: deciding
`∀ x ∈ l, p x` directly may pick the instance that runs through every `Char`. -/
theorem forall_mem_of_all {l : List Char} {p : Char → Prop} [DecidablePred p]
    (h : (l.all fun x => decide (p x)) = true) : ∀ x ∈ l, p x := by
  simpa only [List.all_eq_true, decide_eq_true_eq] using h

/-- Taking while a test holds stops at the first character that fails it. -/
theorem takeWhile_append_of_stop {p : Char → Bool} {xs r : List Char} (hxs : ∀ x ∈ xs, p x)
    (hr : ∀ x ∈ r.head?, p x = false) : (xs ++ r).takeWhile p = xs := by
  rw [List.takeWhile_append_of_pos hxs]
  cases r with
  | nil => simp
  | cons x r => simp [hr x rfl]

/-- `expect` at the character it expects consumes it. -/
theorem run_expect_at {ch : Char} {r : List Char} (hc : c.rest = ch :: r)
    (hb : Cursor.isBlank ch = false) (hs : ch ≠ ';') :
    (expect ch).run c = .ok ((), c.advance 1) := by
  have hskip := Cursor.skipBlanks_of_head (show c.rest.head? = some ch by rw [hc]; rfl) hb hs true
  rw [run_expect (by rw [hskip, hc]; rfl), hskip]

/-- A written word: word characters, followed by a character that does not continue it. -/
structure WordAt (text w : List Char) : Prop where
  ne_nil : w ≠ []
  word : ∀ x ∈ w, isWordChar x
  stop : ∀ x ∈ (text.drop w.length).head?, isWordChar x = false
  starts : w <+: text

theorem WordAt.takeWhile {text w : List Char} (h : WordAt text w) :
    text.takeWhile isWordChar = w := by
  obtain ⟨r, hr⟩ := h.starts
  have hstop := h.stop
  rw [← hr, List.drop_left] at hstop
  rw [← hr, takeWhile_append_of_stop h.word hstop]

/-- A word followed by text whose first character does not continue it. -/
theorem WordAt.of_append {text w r : List Char} (hc : text = w ++ r) (hne : w ≠ [])
    (hw : ∀ x ∈ w, isWordChar x) (hr : ∀ x ∈ r.head?, isWordChar x = false) : WordAt text w :=
  ⟨hne, hw, by rw [hc, List.drop_left]; exact hr, ⟨r, hc.symm⟩⟩

theorem run_wordAt {w : List Char} (h : WordAt c.rest w) :
    wordAt.run c = .ok (some (String.ofList w), c) := by
  simp only [wordAt, StateT.run_bind, StateT.run_get, pure_bind, StateT.run_pure, h.takeWhile,
    List.isEmpty_iff, h.ne_nil, if_false]
  rfl

theorem run_peekWord {w : List Char} (h : WordAt (c.skipBlanks true).rest w) :
    peekWord.run c = .ok (some (String.ofList w), c.skipBlanks true) := by
  simp only [peekWord]
  rw [run_bind_ok (run_skipBlanks _ _), run_wordAt h]

/-- A written word is read whole. -/
theorem run_readWord {w : List Char} (h : WordAt (c.skipBlanks true).rest w) :
    readWord.run c = .ok (String.ofList w, (c.skipBlanks true).advance w.length) := by
  simp only [readWord]
  rw [run_bind_ok (run_peekWord h)]
  dsimp only
  rw [run_bind_ok (run_advance _ _), String.length_ofList]
  rfl

theorem run_tryWord_hit {w : String} (h : WordAt (c.skipBlanks true).rest w.toList) :
    (tryWord w).run c = .ok (true, (c.skipBlanks true).advance w.length) := by
  simp only [tryWord]
  rw [run_bind_ok (run_peekWord h), String.ofList_toList, if_pos rfl]
  rfl

theorem run_expectWord {w : String} (h : WordAt (c.skipBlanks true).rest w.toList) :
    (expectWord w).run c = .ok ((), (c.skipBlanks true).advance w.length) := by
  simp only [expectWord]
  rw [run_bind_ok (run_tryWord_hit h)]
  rfl

/-! ## Numbers -/

/-- The value of a run of digits is the value of the numeral they spell. -/
theorem digitsValue_eq_ofDigitChars (ds : List Char) : digitsValue ds = Nat.ofDigitChars 10 ds 0 := by
  rw [digitsValue, Nat.ofDigitChars_eq_foldl]
  congr 1
  funext acc d
  rw [Nat.mul_comm]
  rfl

theorem toList_toString (n : Nat) : (toString n).toList = Nat.toDigits 10 n := by
  rw [Nat.toString_eq_ofList_toDigits, String.toList_ofList]

theorem isDigitChar_of_toString {n : Nat} : ∀ x ∈ (toString n).toList, isDigitChar x := by
  rw [toList_toString]
  exact fun x hx => Nat.isDigit_of_mem_toDigits (by decide) (by decide) hx

theorem toList_toString_ne_nil (n : Nat) : (toString n).toList ≠ [] := by
  rw [toList_toString]
  exact Nat.toDigits_ne_nil

theorem isWordChar_of_isDigitChar {x : Char} (h : isDigitChar x) : isWordChar x := by
  simp only [isWordChar, Char.isAlphanum, Bool.or_eq_true]
  exact .inl (.inl (.inr h))

/-- Blanks are no digits, so skipping them at a written number does nothing. -/
theorem skipBlanks_of_toString {n : Nat} {r : List Char} (hc : c.rest = (toString n).toList ++ r)
    (nl : Bool) : c.skipBlanks nl = c := by
  obtain ⟨d, ds, hd⟩ := List.exists_cons_of_ne_nil (toList_toString_ne_nil n)
  have hdigit := isDigitChar_of_toString d (by rw [hd]; exact List.mem_cons_self)
  refine Cursor.skipBlanks_of_head (show c.rest.head? = some d by rw [hc, hd]; rfl) ?_ ?_ nl
  · simp only [Cursor.isBlank, Bool.or_eq_false_iff, decide_eq_false_iff_not]
    refine ⟨⟨⟨⟨?_, ?_⟩, ?_⟩, ?_⟩, ?_⟩ <;> (rintro rfl; exact absurd hdigit (by decide))
  · rintro rfl
    exact absurd hdigit (by decide)

theorem digitsValue_toString (n : Nat) : digitsValue (toString n).toList = n := by
  rw [digitsValue_eq_ofDigitChars, toList_toString, Nat.ofDigitChars_ten_toDigits]

/-- A written number below the bound, followed by a character that is not a digit, is read. -/
theorem run_readNumber {n bound : Nat} {r : List Char}
    (hc : (c.skipBlanks true).rest = (toString n).toList ++ r)
    (hr : ∀ x ∈ r.head?, isDigitChar x = false) (hn : n < bound) :
    (readNumber bound).run c = .ok (n, (c.skipBlanks true).advance (toString n).length) := by
  have hds : (c.skipBlanks true).rest.takeWhile isDigitChar = (toString n).toList := by
    rw [hc, takeWhile_append_of_stop isDigitChar_of_toString hr]
  have hne : ((toString n).toList).isEmpty = false := by
    rw [toList_toString]
    simp [Nat.toDigits_ne_nil]
  simp only [readNumber]
  rw [run_bind_ok (run_skipBlanks _ _), run_bind_ok (run_get _)]
  simp only [hds, hne, digitsValue_toString, Bool.false_or, decide_eq_false (Nat.not_le.mpr hn),
    Bool.false_eq_true, if_false]
  rw [run_bind_ok (run_advance _ _)]
  rfl

/-- A number written at the cursor is read. -/
theorem run_readNumber_at {n bound : Nat} {r : List Char} (hc : c.rest = (toString n).toList ++ r)
    (hr : ∀ x ∈ r.head?, isDigitChar x = false) (hn : n < bound) :
    (readNumber bound).run c = .ok (n, c.advance (toString n).length) := by
  have hskip := skipBlanks_of_toString hc true
  rw [run_readNumber (by rw [hskip]; exact hc) hr hn, hskip]

/-! ## Names -/

/-- A quoted string whose body holds no quote is read up to its closing quote. -/
theorem run_readRawString {body r : List Char} (hc : c.rest = '"' :: body ++ '"' :: r)
    (hb : ∀ x ∈ body, x ≠ '"') :
    readRawString.run c = .ok (body, c.advance (body.length + 2)) := by
  have hhead : c.rest.head? = some '"' := by rw [hc]; rfl
  have hbody : (c.rest.drop 1).takeWhile (fun x => decide (x ≠ '"')) = body := by
    rw [hc, List.cons_append, List.drop_one, List.tail_cons]
    exact takeWhile_append_of_stop (by simpa using hb) (by simp)
  have hclosed : (c.rest.drop (1 + body.length)).isEmpty = false := by
    rw [hc, show 1 + body.length = ('"' :: body).length by simp [Nat.add_comm], List.drop_left]
    rfl
  simp only [readRawString]
  rw [run_bind_ok (run_peek _), hhead]
  simp only [ne_eq, not_true_eq_false, if_false]
  rw [run_bind_ok (run_get _), run_bind_ok (run_get _)]
  simp only [hbody, hclosed, Bool.false_eq_true, if_false]
  rw [run_bind_ok (run_advance _ _)]
  rfl

/-- A quoted name is read and decoded to the name. -/
theorem run_readString_quote {name : String} {r : List Char}
    (hc : (c.skipBlanks true).rest = (Text.quote name.toUTF8.toList).toList ++ r) :
    readString.run c =
      .ok (name, (c.skipBlanks true).advance (Text.quote name.toUTF8.toList).length) := by
  have hraw := run_readRawString (c := c.skipBlanks true)
    (show _ = '"' :: Text.quoteBody name.toUTF8.toList ++ '"' :: r by
      rw [hc, Text.toList_quote]; simp)
    (fun x hx => (Text.quoteBody_ascii x hx).2)
  have hdec : Text.unescapeBytes (String.ofList (Text.quoteBody name.toUTF8.toList)).toUTF8.toList =
      .ok name.toUTF8.toList := Text.unescape_quoteBody _
  have hlen : (Text.quote name.toUTF8.toList).length =
      (Text.quoteBody name.toUTF8.toList).length + 2 := by
    rw [← String.length_toList, Text.toList_quote]
    simp
  simp only [readString]
  rw [run_bind_ok (run_skipBlanks _ _), run_bind_ok hraw]
  simp only [hdec, Text.fromUTF8?_toUTF8, hlen]
  rfl

/-- The first character of a written name: a quote, or the name-start byte of a bare name. -/
theorem ident_head (name : String) : ∃ ch cs, (Text.ident name).toList = ch :: cs ∧
    isDigitChar ch = false ∧ (Text.isBare name = false → ch = '"') := by
  by_cases hb : Text.isBare name
  · obtain ⟨ch, cs, hlist, hstart, hall⟩ := Text.isBare_toList hb
    refine ⟨ch, cs, by rw [Text.ident, if_pos hb, hlist], ?_, fun h => absurd hb (by simp [h])⟩
    have hlt := (hall ch (by simp)).1
    simp only [Text.isNameStart, Bool.or_eq_true, Bool.and_eq_true, decide_eq_true_eq, beq_iff_eq,
      UInt8.le_iff_toNat_le, ← UInt8.toNat_inj, Text.asciiByte_toNat hlt] at hstart
    simp only [isDigitChar, Char.isDigit, Bool.and_eq_false_iff, decide_eq_false_iff_not,
      UInt32.le_iff_toNat_le]
    simp at hstart
    show ¬ 48 ≤ ch.toNat ∨ ¬ ch.toNat ≤ 57
    omega
  · refine ⟨'"', Text.quoteBody name.toUTF8.toList ++ ['"'], ?_, by decide, fun _ => rfl⟩
    rw [Text.ident, if_neg hb, Text.toList_quote, List.cons_append]

/-- **A written name is read back**: bare up to the first character that is not a name
character, quoted up to its closing quote and decoded. -/
theorem run_readName {name : String} {r : List Char} (hc : c.rest = (Text.ident name).toList ++ r)
    (hr : Text.isBare name → ∀ x ∈ r.head?, isNameChar x = false) :
    readName.run c = .ok (name, c.advance (Text.ident name).length) := by
  by_cases hb : Text.isBare name
  · obtain ⟨ch, cs, hlist, hstart, hall⟩ := Text.isBare_toList hb
    have hident : Text.ident name = name := if_pos hb
    rw [hident] at hc ⊢
    have hhead : c.rest.head? ≠ some '"' := by
      rw [hc, hlist]
      rintro ⟨⟩
      exact absurd hstart (by decide)
    have hname : c.rest.takeWhile isNameChar = name.toList := by
      rw [hc]
      refine takeWhile_append_of_stop (fun x hx => ?_) (hr hb)
      rw [hlist] at hx
      simp only [isNameChar, Bool.and_eq_true, decide_eq_true_eq]
      exact hall x hx
    have hne : name.toList.isEmpty = false := by rw [hlist]; rfl
    simp only [readName]
    rw [run_bind_ok (run_peek _), if_neg hhead, run_bind_ok (run_get _)]
    simp only [hname, hne, Bool.false_eq_true, if_false]
    rw [run_bind_ok (run_advance _ _), String.ofList_toList]
    rfl
  · have hquote : Text.ident name = Text.quote name.toUTF8.toList := if_neg hb
    rw [hquote] at hc ⊢
    have hhead : c.rest.head? = some '"' := by rw [hc, Text.toList_quote]; rfl
    have hskip : c.skipBlanks true = c := by
      exact Cursor.skipBlanks_of_head (by rw [hc, Text.toList_quote]; rfl) (by decide) (by decide) _
    simp only [readName]
    rw [run_bind_ok (run_peek _), if_pos hhead, run_readString_quote (by rw [hskip]; exact hc),
      hskip]

/-- A sigil followed by a written name: `expect` consumes the sigil, then the name is read. -/
theorem run_expect_readName {sigil : Char} {name : String} {r : List Char}
    (hc : (c.skipBlanks true).rest = sigil :: ((Text.ident name).toList ++ r))
    (hr : Text.isBare name → ∀ x ∈ r.head?, isNameChar x = false) :
    (expect sigil >>= fun _ => readName).run c =
      .ok (name, (c.skipBlanks true).advance (1 + (Text.ident name).length)) := by
  have hrest : ((c.skipBlanks true).advance 1).rest = (Text.ident name).toList ++ r :=
    Cursor.rest_advance_append [sigil] (by rw [hc]; rfl)
  rw [run_bind_ok (run_expect (by rw [hc]; rfl)), run_readName hrest hr, Cursor.advance_add]

theorem toList_localName (name : String) :
    (Text.localName name).toList = '%' :: (Text.ident name).toList := by
  rw [Text.localName, String.toList_append]
  rfl

/-- `%name` is read as the local name `name`. -/
theorem run_readLocal {name : String} {r : List Char}
    (hc : (c.skipBlanks true).rest = (Text.localName name).toList ++ r)
    (hr : Text.isBare name → ∀ x ∈ r.head?, isNameChar x = false) :
    readLocal.run c = .ok (.name name, (c.skipBlanks true).advance (Text.localName name).length) := by
  have hlocal := toList_localName name
  obtain ⟨ch, cs, hlist, hdigit, -⟩ := ident_head name
  have hrest : ((c.skipBlanks true).advance 1).rest = (Text.ident name).toList ++ r :=
    Cursor.rest_advance_append ['%'] (by rw [hc, hlocal]; rfl)
  have hpeek : ((c.skipBlanks true).advance 1).rest.head? = some ch := by rw [hrest, hlist]; rfl
  have hlen : (Text.localName name).length = 1 + (Text.ident name).length := by
    rw [← String.length_toList, hlocal, List.length_cons, String.length_toList, Nat.add_comm]
  simp only [readLocal]
  rw [run_bind_ok (run_expect (by rw [hc, hlocal]; rfl)), run_bind_ok (run_peek _), hpeek]
  simp only [hdigit, Bool.false_eq_true, if_false]
  rw [run_bind_ok (run_readName hrest hr), hlen, Cursor.advance_add]
  rfl

end Reader

end LlvmAsm.Ast
