import LlvmAsm.Ast.Grammar.Function
import LlvmAsm.Proofs.Reading.Constants

/-!
# `Proofs.Reading.Labels` — written names and block labels read back

A name is written after its sigil (`%` for a local, `@` for a global, `$` for a comdat), bare when
it may be and quoted otherwise (`Text.ident`); a block's label is its name, or its number, and a
colon (`LocalIdent.label`). The tests that decide the two sides are separate: the writer asks
`Text.isBare` of the name's bytes, the reader scans name characters and looks for a digit after
`%`. They line up: a bare name never opens with a digit or a quote, and ends where a character
that continues no name follows.

Main statement: `written_names_read_back`. Reading a written name consumes exactly its text (the
cursor moves past its bytes) and gives the name back, a local as a name and never a number, and
`tryLabel` reads a written label back as the block's name, or as its number when that fits
32 bits.
-/

namespace LlvmAsm.Ast

/-- Moving past a text at the cursor leaves what follows it, and the offset moves past the text's
bytes. -/
theorem Cursor.advance_of_rest {c : Cursor} {xs r : List Char} (h : c.rest = xs ++ r) :
    c.advance xs.length = ⟨r, c.pos + (String.ofList xs).utf8ByteSize⟩ := by
  induction xs generalizing c with
  | nil =>
    obtain ⟨rest, pos⟩ := c
    obtain rfl : rest = r := h
    rfl
  | cons x xs ih =>
    have hnext : c.next = ⟨xs ++ r, c.pos + x.utf8Size⟩ := by
      rw [Cursor.next, h]
      rfl
    rw [List.length_cons, Cursor.advance, hnext, ih rfl, String.ofList_cons,
      String.utf8ByteSize_append, String.utf8ByteSize_singleton, Nat.add_assoc]

/-- Moving past a written text leaves what follows it, past the text's bytes. -/
theorem Cursor.advance_length_of_rest {c : Cursor} {s : String} {r : List Char}
    (h : c.rest = s.toList ++ r) : c.advance s.length = ⟨r, c.pos + s.utf8ByteSize⟩ := by
  rw [← String.length_toList, Cursor.advance_of_rest h, String.ofList_toList]

namespace Reader

variable {c : Cursor}

theorem toList_comdatName (name : String) :
    (Text.comdatName name).toList = '$' :: (Text.ident name).toList := by
  rw [Text.comdatName, String.toList_append]
  rfl

/-- `$name` is read as the comdat name `name`. -/
theorem run_readComdatName {name : String} {r : List Char}
    (hc : (c.skipBlanks true).rest = (Text.comdatName name).toList ++ r)
    (hr : Text.isBare name → ∀ x ∈ r.head?, isNameChar x = false) :
    readComdatName.run c =
      .ok (name, (c.skipBlanks true).advance (Text.comdatName name).length) := by
  have hlen : (Text.comdatName name).length = 1 + (Text.ident name).length := by
    rw [← String.length_toList, toList_comdatName, List.length_cons, String.length_toList,
      Nat.add_comm]
  rw [hlen]
  exact run_expect_readName (by rw [hc, toList_comdatName]; rfl) hr

theorem toList_label_named (n : String) :
    (LocalIdent.named n).label.toList = (Text.ident n).toList ++ [':'] := by
  rw [LocalIdent.label, String.toList_append]
  rfl

theorem toList_label_anon (id : Nat) :
    (LocalIdent.anon id).label.toList = (toString id).toList ++ [':'] := by
  rw [LocalIdent.label, String.toList_append]
  rfl

/-- A named block's label is read back as its name: a quoted name through `readString`, a bare
one through `readName`, which stops at the colon. -/
theorem run_tryLabel_named {n : String} {r : List Char}
    (hc : (c.skipBlanks true).rest = (LocalIdent.named n).label.toList ++ r) :
    tryLabel.run c =
      .ok (some (.name n), (c.skipBlanks true).advance (LocalIdent.named n).label.length) := by
  obtain ⟨ch, cs, hlist, hdigit, hquote⟩ := ident_head n
  have htext : (c.skipBlanks true).rest = (Text.ident n).toList ++ ':' :: r := by
    rw [hc, toList_label_named, List.append_assoc]
    rfl
  have hlen : (LocalIdent.named n).label.length = (Text.ident n).length + 1 := by
    rw [← String.length_toList, toList_label_named, List.length_append, String.length_toList]
    rfl
  have hcolon : ((c.skipBlanks true).advance (Text.ident n).length).rest = ':' :: r :=
    Cursor.rest_advance_append _ htext
  -- once the name is read, the colon closes the label
  have hclose : ∀ c' : Cursor, c'.rest = ':' :: r →
      (do
        let x ← peek
        if x = some ':' then do advance 1; pure (some (LocalName.name n))
        else do set (c.skipBlanks true); pure none : Reader (Option LocalName)).run c' =
        .ok (some (.name n), c'.advance 1) := by
    intro c' hc'
    rw [run_bind_ok (run_peek _), hc']
    rfl
  simp only [tryLabel]
  rw [run_bind_ok (run_skipBlanks _ _), run_bind_ok (run_get _), run_bind_ok (run_peek _), htext,
    hlist]
  simp only [List.cons_append, List.head?_cons]
  split
  · -- a quoted name
    next heq =>
    obtain rfl : ch = '"' := Option.some.inj heq
    have hbare : Text.isBare n = false := by
      cases hb : Text.isBare n
      · rfl
      · obtain ⟨ch', cs', hlist', hstart, -⟩ := Text.isBare_toList hb
        rw [Text.ident, if_pos hb, hlist'] at hlist
        obtain ⟨rfl, -⟩ := List.cons.inj hlist
        exact absurd hstart (by decide)
    have hq : (c.skipBlanks true).skipBlanks true = c.skipBlanks true :=
      Cursor.skipBlanks_skipBlanks c
    rw [run_bind_ok (run_readString_quote (c := c.skipBlanks true) (r := ':' :: r) (by
      rw [hq, htext, Text.ident, if_neg (by simp [hbare])])), hq]
    rw [Text.ident, if_neg (by simp [hbare])] at hcolon hlen
    simp only [pure_bind]
    rw [hclose _ hcolon, hlen, Cursor.advance_add]
  · -- a bare name: its first character is a name character and no digit
    next ch' hne heq =>
    obtain rfl : ch = ch' := Option.some.inj heq
    have hbare : Text.isBare n = true := by
      cases hb : Text.isBare n
      · exact absurd (hquote hb) hne
      · rfl
    obtain ⟨ch'', cs', hlist', -, hall⟩ := Text.isBare_toList hbare
    rw [Text.ident, if_pos hbare, hlist'] at hlist
    obtain ⟨rfl, rfl⟩ := List.cons.inj hlist
    have hname : isNameChar ch'' = true := by
      simp only [isNameChar, Bool.and_eq_true, decide_eq_true_eq]
      exact hall ch'' List.mem_cons_self
    simp only [hdigit, hname, Bool.false_eq_true, if_false, if_true]
    rw [run_bind_ok (run_readName (c := c.skipBlanks true) htext (fun _ x hx => by
      cases hx; rfl))]
    simp only [pure_bind]
    rw [hclose _ hcolon, hlen, Cursor.advance_add]
  · next heq => cases heq

/-- An anonymous block's label `N:` is read back as its number, when that fits 32 bits. -/
theorem run_tryLabel_anon {id : Nat} {r : List Char} (hid : id < bound32)
    (hc : (c.skipBlanks true).rest = (LocalIdent.anon id).label.toList ++ r) :
    tryLabel.run c =
      .ok (some (.number id), (c.skipBlanks true).advance (LocalIdent.anon id).label.length) := by
  obtain ⟨d, ds, hd⟩ := List.exists_cons_of_ne_nil (toList_toString_ne_nil id)
  have hdigit := isDigitChar_of_toString d (by rw [hd]; exact List.mem_cons_self)
  have htext : (c.skipBlanks true).rest = (toString id).toList ++ ':' :: r := by
    rw [hc, toList_label_anon, List.append_assoc]
    rfl
  have hds : (c.skipBlanks true).rest.takeWhile isDigitChar = (toString id).toList := by
    rw [htext]
    exact takeWhile_append_of_stop isDigitChar_of_toString (fun x hx => by cases hx; rfl)
  have hlen : (LocalIdent.anon id).label.length = (toString id).length + 1 := by
    rw [← String.length_toList, toList_label_anon, List.length_append, String.length_toList]
    rfl
  have hcolon : ((c.skipBlanks true).advance (toString id).toList.length).rest = ':' :: r :=
    Cursor.rest_advance_append _ htext
  have hhead : (c.skipBlanks true).rest.head? = some d := by rw [htext, hd]; rfl
  simp only [tryLabel]
  rw [run_bind_ok (run_skipBlanks _ _), run_bind_ok (run_get _), run_bind_ok (run_peek _), hhead]
  split
  · next heq =>
    obtain rfl : d = '"' := Option.some.inj heq
    exact absurd hdigit (by decide)
  · -- the digits are read whole, and their value is the number
    next ch' hne heq =>
    obtain rfl : d = ch' := Option.some.inj heq
    simp only [hdigit, if_true, hds, digitsValue_toString, hid]
    rw [run_bind_ok (run_advance _ _)]
    simp only [pure_bind]
    rw [run_bind_ok (run_peek _), hcolon, hlen, Cursor.advance_add]
    rfl
  · next heq => cases heq

/-- **Written names and labels read back.** A local, global or comdat name is written after its
sigil, as the name itself when it is bare and as the quoted bytes of the name otherwise. Reading
that text where a character that continues no name follows consumes exactly the text and gives
the name back, a local as a name and never as a number. A named block's label is read back as its
name, and an anonymous block's label `N:` as the number `N` when that fits 32 bits. -/
theorem written_names_read_back (n : String) :
    (Text.localName n = "%" ++ (if Text.isBare n then n else Text.quote n.toUTF8.toList) ∧
      Text.globalName n = "@" ++ (if Text.isBare n then n else Text.quote n.toUTF8.toList) ∧
      Text.comdatName n = "$" ++ (if Text.isBare n then n else Text.quote n.toUTF8.toList)) ∧
    (∀ (c : Cursor) (r : List Char), (∀ x ∈ r.head?, isNameChar x = false) →
      ((c.skipBlanks true).rest = (Text.localName n).toList ++ r →
        readLocal.run c =
          .ok (.name n, ⟨r, (c.skipBlanks true).pos + (Text.localName n).utf8ByteSize⟩)) ∧
      ((c.skipBlanks true).rest = (Text.globalName n).toList ++ r →
        readGlobalName.run c =
          .ok (n, ⟨r, (c.skipBlanks true).pos + (Text.globalName n).utf8ByteSize⟩)) ∧
      ((c.skipBlanks true).rest = (Text.comdatName n).toList ++ r →
        readComdatName.run c =
          .ok (n, ⟨r, (c.skipBlanks true).pos + (Text.comdatName n).utf8ByteSize⟩))) ∧
    (∀ (c : Cursor) (r : List Char),
      (c.skipBlanks true).rest = (LocalIdent.named n).label.toList ++ r →
      tryLabel.run c = .ok (some (.name n),
        ⟨r, (c.skipBlanks true).pos + (LocalIdent.named n).label.utf8ByteSize⟩)) ∧
    (∀ id < bound32, ∀ (c : Cursor) (r : List Char),
      (c.skipBlanks true).rest = (LocalIdent.anon id).label.toList ++ r →
      tryLabel.run c = .ok (some (.number id),
        ⟨r, (c.skipBlanks true).pos + (LocalIdent.anon id).label.utf8ByteSize⟩)) := by
  refine ⟨⟨rfl, rfl, rfl⟩, fun c r hr => ⟨fun hc => ?_, fun hc => ?_, fun hc => ?_⟩,
    fun c r hc => ?_, fun id hid c r hc => ?_⟩
  · rw [run_readLocal hc (fun _ => hr), Cursor.advance_length_of_rest hc]
  · rw [run_readGlobalName hc (fun _ => hr), Cursor.advance_length_of_rest hc]
  · rw [run_readComdatName hc (fun _ => hr), Cursor.advance_length_of_rest hc]
  · rw [run_tryLabel_named hc, Cursor.advance_length_of_rest hc]
  · rw [run_tryLabel_anon hid hc, Cursor.advance_length_of_rest hc]

/-- The quoted local `%"loop body"` before a comma is read back whole as that name, and the label
`7:` as the number 7. -/
theorem quotedLocal_and_numberLabel_read_back :
    readLocal.run ⟨(Text.localName "loop body").toList ++ [','], 0⟩ =
        .ok (.name "loop body", ⟨[','], (Text.localName "loop body").utf8ByteSize⟩) ∧
    tryLabel.run ⟨(LocalIdent.anon 7).label.toList ++ ['\n'], 0⟩ =
        .ok (some (.number 7), ⟨['\n'], (LocalIdent.anon 7).label.utf8ByteSize⟩) := by
  have hlocal : Cursor.skipBlanks true ⟨(Text.localName "loop body").toList ++ [','], 0⟩ =
      ⟨(Text.localName "loop body").toList ++ [','], 0⟩ :=
    Cursor.skipBlanks_of_head (by rw [toList_localName]; rfl) (by decide) (by decide) true
  have hlabel : Cursor.skipBlanks true ⟨(LocalIdent.anon 7).label.toList ++ ['\n'], 0⟩ =
      ⟨(LocalIdent.anon 7).label.toList ++ ['\n'], 0⟩ :=
    Cursor.skipBlanks_of_head (by rw [toList_label_anon]; rfl) (by decide) (by decide) true
  have hnames := written_names_read_back "loop body"
  have hread := (hnames.2.1 _ [','] (fun x hx => by cases hx; rfl)).1 (by rw [hlocal])
  have hnumber := hnames.2.2.2 7 (by decide) _ ['\n'] (by rw [hlabel])
  simp only [hlocal, Nat.zero_add] at hread
  simp only [hlabel, Nat.zero_add] at hnumber
  exact ⟨hread, hnumber⟩

end Reader

end LlvmAsm.Ast
