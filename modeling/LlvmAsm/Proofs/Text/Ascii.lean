import LlvmAsm.Text.Quoted

/-!
# `Proofs.Text.Ascii` — the bytes of ASCII text

The reading and checking functions look at a text's UTF-8 bytes, while what is written is a
sequence of characters. The two views agree character for character on ASCII: an ASCII character
is one byte, its code, and a text whose bytes are all below `0x80` is the text of those
characters.

Main statements: `utf8_ofList_ascii` (writing ASCII characters gives their codes) and
`toList_of_ascii_bytes` (reading ASCII bytes back gives the characters).
-/

namespace LlvmAsm.Text

/-- The byte of an ASCII character: its code. -/
def asciiByte (c : Char) : UInt8 := c.toNat.toUInt8

/-- The character of an ASCII byte. -/
def asciiChar (b : UInt8) : Char := Char.ofNat b.toNat

theorem byteArray_toList_loop (bs : ByteArray) (i : Nat) (r : List UInt8) :
    ByteArray.toList.loop bs i r = r.reverse ++ bs.data.toList.drop i := by
  fun_induction ByteArray.toList.loop bs i r with
  | case1 i r hi ih =>
    have hi' : i < bs.data.toList.length := by simpa using hi
    rw [ih]
    simp [List.drop_eq_getElem_cons hi', ByteArray.get!, hi]
  | case2 i r hi =>
    simpa using Nat.le_of_not_lt hi

theorem byteArray_toList (bs : ByteArray) : bs.toList = bs.data.toList := by
  simp [ByteArray.toList, byteArray_toList_loop]

/-- The bytes of a text are the encodings of its characters, in order. -/
theorem utf8_eq_flatMap (s : String) : s.toUTF8.toList = s.toList.flatMap String.utf8EncodeChar := by
  rw [String.toUTF8_eq_toByteArray, ← String.utf8Encode_toList]
  simp [List.utf8Encode, byteArray_toList, List.data_toByteArray]

/-- An ASCII character is encoded as one byte, its code. -/
theorem utf8EncodeChar_ascii {c : Char} (h : c.toNat < 128) :
    String.utf8EncodeChar c = [asciiByte c] := by
  have hv : c.val ≤ 127 := UInt32.le_iff_toNat_le.mpr (by show c.toNat ≤ 127; omega)
  rw [String.utf8EncodeChar_eq_singleton]
  · rfl
  · simp [Char.utf8Size, hv]

/-- **Writing ASCII characters gives their codes.** -/
theorem utf8_ofList_ascii {cs : List Char} (h : ∀ c ∈ cs, c.toNat < 128) :
    (String.ofList cs).toUTF8.toList = cs.map asciiByte := by
  rw [utf8_eq_flatMap, String.toList_ofList]
  induction cs with
  | nil => rfl
  | cons c cs ih =>
    rw [List.flatMap_cons, utf8EncodeChar_ascii (h c (by simp)),
      ih fun d hd => h d (List.mem_cons_of_mem c hd)]
    rfl

theorem asciiByte_toNat {c : Char} (h : c.toNat < 128) : (asciiByte c).toNat = c.toNat := by
  rw [asciiByte, Nat.toUInt8_eq, UInt8.toNat_ofNat']
  omega

theorem asciiChar_toNat {b : UInt8} (h : b.toNat < 128) : (asciiChar b).toNat = b.toNat := by
  rw [asciiChar, Char.ofNat, dif_pos (Or.inl (by omega))]
  rfl

theorem asciiByte_asciiChar {b : UInt8} (h : b.toNat < 128) : asciiByte (asciiChar b) = b := by
  rw [asciiByte, asciiChar_toNat h]
  exact UInt8.ofNat_toNat

/-- **Reading ASCII bytes back gives the characters.** A text whose bytes are all below `0x80`
is the text of the characters of those codes. -/
theorem toList_of_ascii_bytes {s : String} {bs : List UInt8} (hs : s.toUTF8.toList = bs)
    (h : ∀ b ∈ bs, b.toNat < 128) : s.toList = bs.map asciiChar := by
  have hcs : ∀ c ∈ bs.map asciiChar, c.toNat < 128 := by
    simp only [List.mem_map]
    rintro c ⟨b, hb, rfl⟩
    rw [asciiChar_toNat (h b hb)]
    exact h b hb
  have hbytes : (String.ofList (bs.map asciiChar)).toUTF8.toList = bs := by
    rw [utf8_ofList_ascii hcs, List.map_map,
      List.map_congr_left (f := asciiByte ∘ asciiChar) (g := id)
        fun b hb => asciiByte_asciiChar (h b hb), List.map_id]
  have heq : s = String.ofList (bs.map asciiChar) := by
    rw [← String.toByteArray_inj, ← String.toUTF8_eq_toByteArray, ← String.toUTF8_eq_toByteArray]
    apply ByteArray.ext
    rw [← Array.toList_inj, ← byteArray_toList, ← byteArray_toList, hs, hbytes]
  rw [heq, String.toList_ofList]

theorem asciiChar_asciiByte {c : Char} (h : c.toNat < 128) : asciiChar (asciiByte c) = c := by
  apply Char.toNat_inj.mp
  rw [asciiChar_toNat (by rw [asciiByte_toNat h]; exact h), asciiByte_toNat h]

/-- A text whose bytes are those of an ASCII text followed by ASCII bytes is that text followed by
the characters of the bytes. -/
theorem toList_of_utf8_append {s pre : String} {rest : List UInt8}
    (h : s.toUTF8.toList = pre.toUTF8.toList ++ rest) (hpre : ∀ c ∈ pre.toList, c.toNat < 128)
    (hrest : ∀ b ∈ rest, b.toNat < 128) : s.toList = pre.toList ++ rest.map asciiChar := by
  have hbytes : pre.toUTF8.toList = pre.toList.map asciiByte := by
    rw [← utf8_ofList_ascii hpre, String.ofList_toList]
  have hascii : ∀ b ∈ pre.toUTF8.toList ++ rest, b.toNat < 128 := by
    simp only [List.mem_append, hbytes, List.mem_map]
    rintro b (⟨c, hc, rfl⟩ | hb)
    · rw [asciiByte_toNat (hpre c hc)]
      exact hpre c hc
    · exact hrest b hb
  rw [toList_of_ascii_bytes h hascii, List.map_append, hbytes, List.map_map,
    List.map_congr_left (f := asciiChar ∘ asciiByte) (g := id)
      fun c hc => asciiChar_asciiByte (hpre c hc), List.map_id]

end LlvmAsm.Text
