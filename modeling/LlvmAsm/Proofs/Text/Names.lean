import LlvmAsm.Proofs.IntegerLiterals

/-!
# `Proofs.Text.Names` — written names and quoted bodies read back

A name is written bare when it may be and between quotes otherwise (`ident`); a quoted body is
decoded by `unescape`. This module gives what reading needs to know of the written forms:

* the body between the quotes is printable ASCII and holds no `"` (`quoteBody_printable`), so a
  reader looking for the closing quote finds the one the writer put there;
* decoding the body gives the bytes back (`unescape_quoteBody`), as the quoting rules promise, and
  the bytes of a text decode to the text (`fromUTF8?_toUTF8`);
* a bare name is ASCII, made of name bytes and opened by a name-start byte (`isBare_toList`).
-/

namespace LlvmAsm.Text

/-- A code below `0x80` is the code of its character. -/
theorem toNat_charOfNat {n : Nat} (h : n < 128) : (Char.ofNat n).toNat = n := by
  rw [Char.ofNat, dif_pos (Or.inl (by omega))]
  rfl

theorem hexDigitUpper_toNat {n : Nat} (h : n < 16) :
    (hexDigitUpper n).toNat = if n < 10 then 48 + n else 55 + n := by
  unfold hexDigitUpper
  split <;> exact toNat_charOfNat (by omega)

/-- An uppercase hex digit is an ASCII digit or letter, so neither a quote nor a backslash. -/
theorem hexDigitUpper_range {n : Nat} (h : n < 16) :
    48 ≤ (hexDigitUpper n).toNat ∧ (hexDigitUpper n).toNat ≤ 70 := by
  have hc := hexDigitUpper_toNat h
  split at hc <;> omega

/-- An uppercase hex digit reads back as its value. -/
theorem hexValue?_hexDigitUpper {n : Nat} (h : n < 16) :
    hexValue? (asciiByte (hexDigitUpper n)) = some n := by
  have hc := hexDigitUpper_toNat h
  rw [IntConst.hexValue?_eq_some_iff, asciiByte_toNat (by have := hexDigitUpper_range h; omega),
    hc]
  split <;> omega

/-- The characters a byte is written as inside quotes are printable ASCII (`0x20..0x7E`), and
none is a quote. -/
theorem quoteByte_printable {b : UInt8} :
    ∀ c ∈ quoteByte b, 0x20 ≤ c.toNat ∧ c.toNat ≤ 0x7E ∧ c.toNat ≠ 34 := by
  unfold quoteByte isPlainByte
  split
  · next hp =>
    simp only [Bool.and_eq_true, decide_eq_true_eq, bne_iff_ne, ne_eq, UInt8.le_iff_toNat_le,
      UInt8.lt_iff_toNat_lt, ← UInt8.toNat_inj] at hp
    simp only [List.mem_singleton, forall_eq]
    rw [toNat_charOfNat (by simp at hp; omega)]
    simp at hp
    omega
  · intro c hc
    simp only [List.mem_cons, List.not_mem_nil, or_false] at hc
    have hb := b.toNat_lt
    rcases hc with rfl | rfl | rfl
    · decide
    · have := hexDigitUpper_range (n := b.toNat / 16) (by omega)
      omega
    · have := hexDigitUpper_range (n := b.toNat % 16) (by omega)
      omega

/-- The body between the quotes is printable ASCII without a quote. -/
theorem quoteBody_printable {d : List UInt8} :
    ∀ c ∈ quoteBody d, 0x20 ≤ c.toNat ∧ c.toNat ≤ 0x7E ∧ c ≠ '"' := by
  intro c hc
  obtain ⟨b, -, hb⟩ := List.mem_flatMap.mp hc
  obtain ⟨hlo, hhi, hq⟩ := quoteByte_printable c hb
  exact ⟨hlo, hhi, fun h => hq (by rw [h]; rfl)⟩

/-- **The body between the quotes is ASCII without a quote.** -/
theorem quoteBody_ascii {d : List UInt8} : ∀ c ∈ quoteBody d, c.toNat < 128 ∧ c ≠ '"' := by
  intro c hc
  obtain ⟨-, hhi, hq⟩ := quoteBody_printable c hc
  exact ⟨by omega, hq⟩

/-- Decoding the characters of one byte, then more text, gives the byte first. -/
theorem unescapeFrom_quoteByte (off : Nat) (b : UInt8) (rest : List UInt8) :
    unescapeFrom off ((quoteByte b).map asciiByte ++ rest) =
      (unescapeFrom (off + (quoteByte b).length) rest).map (b :: ·) := by
  have hb := b.toNat_lt
  unfold quoteByte
  split
  · next hp =>
    have h92 : b ≠ 92 := by
      simp only [isPlainByte, Bool.and_eq_true, bne_iff_ne] at hp
      exact hp.2
    have hlt : b.toNat < 128 := by
      simp only [isPlainByte, Bool.and_eq_true, decide_eq_true_eq, UInt8.lt_iff_toNat_lt] at hp
      simp at hp
      omega
    have hbyte : asciiByte (Char.ofNat b.toNat) = b := asciiByte_asciiChar hlt
    simp only [List.map_cons, List.map_nil, List.cons_append, List.nil_append, hbyte,
      List.length_singleton]
    rw [unescapeFrom.eq_def]
    simp only [bne_iff_ne, ne_eq, h92, not_false_eq_true, if_true]
  · have hi := hexValue?_hexDigitUpper (n := b.toNat / 16) (by omega)
    have hl := hexValue?_hexDigitUpper (n := b.toNat % 16) (by omega)
    have hhi : asciiByte (hexDigitUpper (b.toNat / 16)) ≠ 92 := by
      have := hexDigitUpper_range (n := b.toNat / 16) (by omega)
      intro h
      have h' := congrArg UInt8.toNat h
      rw [asciiByte_toNat (by omega)] at h'
      simp at h'
      omega
    have hval : (b.toNat / 16 * 16 + b.toNat % 16).toUInt8 = b := by
      rw [show b.toNat / 16 * 16 + b.toNat % 16 = b.toNat by omega]
      exact UInt8.ofNat_toNat
    simp only [List.map_cons, List.map_nil, List.cons_append, List.nil_append,
      List.length_cons, List.length_nil]
    rw [unescapeFrom.eq_def]
    simp only [show asciiByte '\\' = 92 by rfl, bne_self_eq_false, Bool.false_eq_true, if_false,
      beq_iff_eq, hhi, hi, hl, hval]

/-- Decoding the written characters of bytes gives the bytes. -/
theorem unescapeFrom_quoteBody (d : List UInt8) (off : Nat) :
    unescapeFrom off ((quoteBody d).map asciiByte) = .ok d := by
  induction d generalizing off with
  | nil => rfl
  | cons b d ih =>
    rw [quoteBody, List.flatMap_cons, List.map_append, unescapeFrom_quoteByte, ← quoteBody, ih]
    rfl

/-- **Reading a quoted body back gives its bytes**: `unescape` inverts `quoteBody`. -/
theorem unescape_quoteBody (d : List UInt8) : unescape (String.ofList (quoteBody d)) = .ok d := by
  rw [unescape, unescapeBytes, utf8_ofList_ascii fun c hc => (quoteBody_ascii c hc).1]
  exact unescapeFrom_quoteBody d 0

/-- The bytes of a text decode to the text. -/
theorem fromUTF8?_toUTF8 (s : String) :
    String.fromUTF8? (ByteArray.mk s.toUTF8.toList.toArray) = some s := by
  have hbytes : ByteArray.mk s.toUTF8.toList.toArray = s.toByteArray := by
    rw [byteArray_toList, Array.toArray_toList, String.toUTF8_eq_toByteArray]
  rw [hbytes, String.fromUTF8?, dif_pos s.isValidUTF8]
  rfl

/-- The characters of a quoted name: the quoted body of its bytes between two quotes. -/
theorem toList_quote (data : List UInt8) :
    (quote data).toList = '"' :: quoteBody data ++ ['"'] := by
  rw [quote, String.toList_ofList]

/-- A name byte is ASCII. -/
theorem toNat_lt_of_isNameByte {b : UInt8} (h : isNameByte b) : b.toNat < 128 := by
  simp only [isNameByte, isNameStart, isDigit, Bool.or_eq_true, Bool.and_eq_true,
    decide_eq_true_eq, beq_iff_eq, UInt8.le_iff_toNat_le, ← UInt8.toNat_inj] at h
  simp at h
  omega

/-- **A bare name is ASCII**, made of name bytes and opened by a name-start byte. -/
theorem isBare_toList {name : String} (h : isBare name) : ∃ c cs, name.toList = c :: cs ∧
    isNameStart (asciiByte c) ∧ ∀ x ∈ c :: cs, x.toNat < 128 ∧ isNameByte (asciiByte x) := by
  unfold isBare at h
  split at h
  · exact absurd h Bool.false_ne_true
  · next b rest hbytes =>
    simp only [Bool.and_eq_true, List.all_eq_true] at h
    have hall : ∀ x ∈ b :: rest, isNameByte x := by
      rintro x (_ | ⟨_, hx⟩)
      · simp [isNameByte, h.1]
      · exact h.2 x hx
    have hascii : ∀ x ∈ b :: rest, x.toNat < 128 := fun x hx => toNat_lt_of_isNameByte (hall x hx)
    refine ⟨asciiChar b, rest.map asciiChar, toList_of_ascii_bytes hbytes hascii, ?_, ?_⟩
    · rw [asciiByte_asciiChar (hascii b (by simp))]
      exact h.1
    · intro x hx
      rw [← List.map_cons, List.mem_map] at hx
      obtain ⟨y, hy, rfl⟩ := hx
      rw [asciiChar_toNat (hascii y hy), asciiByte_asciiChar (hascii y hy)]
      exact ⟨hascii y hy, hall y hy⟩

end LlvmAsm.Text
