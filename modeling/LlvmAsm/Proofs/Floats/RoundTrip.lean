import LlvmAsm.Proofs.Floats.DecimalText
import LlvmAsm.Proofs.Reading.Constants

/-!
# `Proofs.Floats.RoundTrip` — the text of a float constant reads back

`FloatConst.render` writes a half as `0xH` and four hex digits of its bits, a float or double
whose widened double is not finite as `0x` and the sixteen hex digits of that double, and a
finite one as the decimal text of the double's shortest digits. Every such text is a number
literal that the reader takes for a float, and parsing it at the constant's kind gives the
constant back, bit for bit: the hex forms hold the bits themselves (`readHexField_hexFixed`), and
the decimal text reads as the double it was written from (`readBinary64_renderDouble`). A float
constant is the narrowing of the double it widens to (`ofDouble_toDouble`), and that double
narrows to it again.

This holds of every constant that parsing gives (`render_reads_back`), since such a constant holds
a half of 16 bits or a double of 64 bits its kind takes exactly (`parse_stored`).
-/

namespace LlvmAsm

open Binary Decimal Text Ast.Reader

namespace FloatConst

/-! ## Hex fields -/

theorem hexValue?_lt {b : UInt8} {x : Nat} (h : hexValue? b = some x) : x < 16 := by
  have := IntConst.hexValue?_eq_some_iff.mp h
  omega

/-- A failed digit stops the reading of a hex field for good. -/
theorem foldl_hex_none (bs : List UInt8) :
    bs.foldl (fun acc d => acc.bind fun a => (hexValue? d).map (a * 16 + ·)) none = none := by
  induction bs with
  | nil => rfl
  | cons b bs ih => exact ih

/-- Hex digits read after `a` give less than `a + 1` shifted past them. -/
theorem foldl_hex_lt (bs : List UInt8) (a r : Nat)
    (h : bs.foldl (fun acc d => acc.bind fun a => (hexValue? d).map (a * 16 + ·)) (some a) = some r) :
    r < (a + 1) * 16 ^ bs.length := by
  induction bs generalizing a with
  | nil =>
    cases h
    simp
  | cons b bs ih =>
    rw [List.foldl_cons] at h
    cases hb : hexValue? b with
    | none =>
      rw [hb] at h
      rw [Option.bind_some, Option.map_none, foldl_hex_none] at h
      cases h
    | some x =>
      rw [hb, Option.bind_some, Option.map_some] at h
      have hx := hexValue?_lt hb
      calc r < (a * 16 + x + 1) * 16 ^ bs.length := ih _ h
        _ ≤ (a + 1) * 16 * 16 ^ bs.length := Nat.mul_le_mul_right _ (by omega)
        _ = (a + 1) * 16 ^ (b :: bs).length := by rw [List.length_cons, pow_succ]; ring

/-- **A hex field of `n` digits holds less than `16^n`.** -/
theorem readHexField_lt {hex : List UInt8} {v : Nat} (h : readHexField hex = .ok v) :
    v < 16 ^ hex.length := by
  cases hex with
  | nil => cases h
  | cons b rest =>
    unfold readHexField at h
    dsimp only at h
    rw [if_neg (by simp)] at h
    -- a leading `+` is dropped, which only shortens the digits
    by_cases hplus : (b == 43 && !rest.isEmpty) = true
    all_goals first | rw [if_pos hplus] at h | rw [if_neg hplus] at h
    all_goals split at h
    all_goals cases h
    · next hr =>
      have := foldl_hex_lt _ 0 v hr
      rw [zero_add, one_mul] at this
      exact lt_of_lt_of_le this (Nat.pow_le_pow_right (by decide) (by simp))
    · next hr =>
      have := foldl_hex_lt _ 0 v hr
      rwa [zero_add, one_mul] at this

/-- A hex field that opens with no `+` is read as its digits. -/
theorem readHexField_of_foldl {bs : List UInt8} (hne : bs ≠ []) (hplus : ∀ b ∈ bs.head?, b ≠ 43)
    {v : Nat} (h : bs.foldl (fun acc d => acc.bind fun a => (hexValue? d).map (a * 16 + ·)) (some 0) =
      some v) : readHexField bs = .ok v := by
  obtain ⟨b, rest, rfl⟩ := List.exists_cons_of_ne_nil hne
  have hb : (b == 43 && !rest.isEmpty) = false := by
    rw [Bool.and_eq_false_iff]
    exact .inl (beq_eq_false_iff_ne.mpr (hplus b rfl))
  unfold readHexField
  dsimp only
  rw [if_neg (by simp), hb, if_neg Bool.false_ne_true, h]

theorem hexFixed_toList (k v : Nat) : (hexFixed hexDigitUpper k v).toList =
    (List.range k).reverse.map fun i => hexDigitUpper (v / Nat.pow 16 i % 16) := String.toList_ofList

theorem hexFixed_digit {k v : Nat} {c : Char} (h : c ∈ (hexFixed hexDigitUpper k v).toList) :
    ∃ n, n < 16 ∧ c = hexDigitUpper n := by
  rw [hexFixed_toList, List.mem_map] at h
  obtain ⟨i, -, rfl⟩ := h
  exact ⟨_, Nat.mod_lt _ (by decide), rfl⟩

theorem hexFixed_utf8 (k v : Nat) : (hexFixed hexDigitUpper k v).toUTF8.toList =
    (hexFixed hexDigitUpper k v).toList.map asciiByte :=
  utf8_of_ascii fun c hc => by
    obtain ⟨n, hn, rfl⟩ := hexFixed_digit hc
    have := hexDigitUpper_range hn
    omega

theorem hexFixed_length (k v : Nat) : (hexFixed hexDigitUpper k v).toUTF8.toList.length = k := by
  rw [hexFixed_utf8, List.length_map, hexFixed_toList, List.length_map, List.length_reverse,
    List.length_range]

/-- Reading the digits of `hexFixed` after `a` shifts `a` past them and adds the low digits of
`v`. The induction is on the width, the most significant digit coming first. -/
theorem foldl_hexFixed (v k a : Nat) :
    ((hexFixed hexDigitUpper k v).toList.map asciiByte).foldl
      (fun acc d => acc.bind fun a => (hexValue? d).map (a * 16 + ·)) (some a) =
        some (a * 16 ^ k + v % 16 ^ k) := by
  rw [hexFixed_toList]
  induction k generalizing a with
  | zero => simp [Nat.mod_one]
  | succ k ih =>
    rw [List.range_succ, List.reverse_append, List.reverse_singleton, List.singleton_append,
      List.map_cons, List.map_cons, List.foldl_cons,
      hexValue?_hexDigitUpper (Nat.mod_lt _ (by decide)), Option.bind_some, Option.map_some, ih]
    congr 1
    rw [show Nat.pow 16 k = 16 ^ k from rfl, Nat.mod_pow_succ, pow_succ]
    ring

/-- The bytes of an uppercase hex digit lie from `0` to `F`. -/
theorem asciiByte_hexDigitUpper {n : Nat} (h : n < 16) :
    48 ≤ (asciiByte (hexDigitUpper n)).toNat ∧ (asciiByte (hexDigitUpper n)).toNat ≤ 70 := by
  have := hexDigitUpper_range h
  rw [asciiByte_toNat (by omega)]
  exact this

/-- **`hexFixed` reads back as the number it writes**, when the number fits its width. -/
theorem readHexField_hexFixed {k v : Nat} (hk : 0 < k) (hv : v < 16 ^ k) :
    readHexField (hexFixed hexDigitUpper k v).toUTF8.toList = .ok v := by
  have hne : (hexFixed hexDigitUpper k v).toList ≠ [] := by
    rw [hexFixed_toList]
    simp only [ne_eq, List.map_eq_nil_iff, List.reverse_eq_nil_iff, List.range_eq_nil]
    omega
  obtain ⟨c, cs, hcs⟩ := List.exists_cons_of_ne_nil hne
  obtain ⟨n, hn, rfl⟩ := hexFixed_digit (k := k) (v := v) (by rw [hcs]; exact List.mem_cons_self)
  rw [hexFixed_utf8]
  refine readHexField_of_foldl (by simpa using hne) ?_ ?_
  · -- the first digit is no `+`
    rw [hcs]
    rintro b hb
    cases hb
    intro h43
    have hr := asciiByte_hexDigitUpper hn
    rw [h43] at hr
    exact absurd hr (by decide)
  · rw [foldl_hexFixed, zero_mul, zero_add, Nat.mod_eq_of_lt hv]

/-! ## The prefixes of hex literals -/

theorem utf8_append (s t : String) : (s ++ t).toUTF8.toList = s.toUTF8.toList ++ t.toUTF8.toList := by
  rw [utf8_eq_flatMap, utf8_eq_flatMap, utf8_eq_flatMap, String.toList_append, List.flatMap_append]

theorem utf8_0xH : "0xH".toUTF8.toList = [48, 120, 72] := by
  rw [utf8_eq_flatMap]
  decide

theorem utf8_0x : "0x".toUTF8.toList = [48, 120] := by
  rw [utf8_eq_flatMap]
  decide

/-- A prefix holding an `x` is no prefix of bytes without one. -/
theorem stripPrefix?_of_not_mem {pre : String} {bytes : List UInt8} (hpre : 120 ∈ pre.toUTF8.toList)
    (hb : 120 ∉ bytes) : IntConst.stripPrefix? pre bytes = none := by
  cases h : IntConst.stripPrefix? pre bytes with
  | none => rfl
  | some r =>
    rw [IntConst.stripPrefix?_eq_some_iff] at h
    exact absurd (h ▸ List.mem_append_left r hpre) hb

/-! ## Parsing a float literal -/

/-- A half literal: `0xH` and at most four hex digits. -/
theorem parse_of_half {text : String} {hex : List UInt8} {v : Nat}
    (hstrip : IntConst.stripPrefix? "0xH" text.toUTF8.toList = some hex) (hlen : hex.length ≤ 4)
    (hv : readHexField hex = .ok v) : parse .half text = .ok ⟨.half, v⟩ := by
  unfold parse
  simp only [bind, Except.bind, pure, Except.pure, throw, throwThe, MonadExceptOf.throw, hstrip,
    ne_eq, not_true_eq_false, if_false]
  rw [if_neg (by omega), hv]

/-- A hex double literal: no `0xH`, `0x` and at most sixteen hex digits, the first none of `K`,
`L`, `M`, holding a double the kind takes. -/
theorem parse_of_hex {kind : FloatKind} {text : String} {hex : List UInt8} {d : Nat} {f : FloatConst}
    (hkind : kind ≠ .half) (hnoH : IntConst.stripPrefix? "0xH" text.toUTF8.toList = none)
    (hstrip : IntConst.stripPrefix? "0x" text.toUTF8.toList = some hex)
    (hhead : ∀ b ∈ hex.head?, 48 ≤ b.toNat ∧ b.toNat ≤ 70) (hlen : hex.length ≤ 16)
    (hd : readHexField hex = .ok d) (hf : ofDouble kind d = some f) : parse kind text = .ok f := by
  have hklm : (hex.head? == some 75 || hex.head? == some 76 || hex.head? == some 77) = false := by
    cases hh : hex.head? with
    | none => rfl
    | some b =>
      -- the first digit lies from `0` to `F`, below `K`
      have hb := hhead b hh
      have hne : ∀ k : UInt8, 70 < k.toNat → (some b == some k) = false := fun k hk => by
        rw [beq_eq_false_iff_ne]
        intro hbk
        cases hbk
        omega
      rw [hne 75 (by decide), hne 76 (by decide), hne 77 (by decide)]
      rfl
  unfold parse
  simp only [bind, Except.bind, pure, Except.pure, throw, throwThe, MonadExceptOf.throw, hnoH,
    hkind, if_false, hstrip, hklm, Bool.false_eq_true]
  rw [if_neg (by omega), hd]
  simp only [hf]

/-- A decimal literal: neither `0xH` nor `0x`, read as a double the kind takes. -/
theorem parse_of_decimal {kind : FloatKind} {text : String} {d : Nat} {f : FloatConst}
    (hkind : kind ≠ .half) (hnoH : IntConst.stripPrefix? "0xH" text.toUTF8.toList = none)
    (hno : IntConst.stripPrefix? "0x" text.toUTF8.toList = none) (hd : readBinary64 text = .ok d)
    (hf : ofDouble kind d = some f) : parse kind text = .ok f := by
  unfold parse
  simp only [bind, Except.bind, pure, Except.pure, throw, throwThe, MonadExceptOf.throw, hnoH,
    hkind, if_false, hno, hd]
  simp only [hf]

/-- **What a parsed float constant holds**: a half pattern of 16 bits, or a double pattern of
64 bits that the kind takes exactly. -/
theorem parse_stored {kind : FloatKind} {text : String} {f : FloatConst}
    (h : parse kind text = .ok f) :
    (kind = .half ∧ f = ⟨.half, f.bits⟩ ∧ f.bits < Nat.pow 2 16) ∨
      (kind ≠ .half ∧ ∃ d, d < Nat.pow 2 64 ∧ ofDouble kind d = some f) := by
  unfold parse at h
  simp only [bind, Except.bind, pure, Except.pure, throw, throwThe, MonadExceptOf.throw] at h
  cases hH : IntConst.stripPrefix? "0xH" text.toUTF8.toList with
  | some hex =>
    -- `0xH`: a half of at most four hex digits
    simp only [hH] at h
    by_cases hk : kind = .half
    · subst hk
      simp only [ne_eq, not_true_eq_false, if_false] at h
      by_cases hlen : 4 < hex.length
      · rw [if_pos hlen] at h
        cases h
      rw [if_neg hlen] at h
      cases hv : readHexField hex with
      | error e =>
        rw [hv] at h
        cases h
      | ok v =>
        rw [hv] at h
        cases h
        have hv16 : v < 16 ^ 4 :=
          lt_of_lt_of_le (readHexField_lt hv) (Nat.pow_le_pow_right (by decide) (not_lt.mp hlen))
        exact .inl ⟨rfl, rfl, hv16⟩
    · simp only [ne_eq, hk, not_false_eq_true, if_true] at h
      cases h
  | none =>
    simp only [hH] at h
    by_cases hk : kind = .half
    · simp only [hk, if_true] at h
      cases h
    simp only [hk, if_false] at h
    cases h0x : IntConst.stripPrefix? "0x" text.toUTF8.toList with
    | some hex =>
      -- `0x`: a double of at most sixteen hex digits
      simp only [h0x] at h
      by_cases hklm : (hex.head? == some 75 || hex.head? == some 76 || hex.head? == some 77) = true
      · rw [if_pos hklm] at h
        cases h
      rw [if_neg hklm] at h
      by_cases hlen : 16 < hex.length
      · rw [if_pos hlen] at h
        cases h
      rw [if_neg hlen] at h
      cases hv : readHexField hex with
      | error e =>
        rw [hv] at h
        cases h
      | ok v =>
        rw [hv] at h
        dsimp only at h
        cases hf : ofDouble kind v with
        | none =>
          rw [hf] at h
          cases h
        | some f' =>
          rw [hf] at h
          cases h
          have hv64 : v < 16 ^ 16 :=
            lt_of_lt_of_le (readHexField_lt hv) (Nat.pow_le_pow_right (by decide) (not_lt.mp hlen))
          exact .inr ⟨hk, v, hv64, hf⟩
    | none =>
      -- decimal text: the nearest double
      simp only [h0x] at h
      cases hv : readBinary64 text with
      | error e =>
        rw [hv] at h
        cases h
      | ok v =>
        rw [hv] at h
        dsimp only at h
        cases hf : ofDouble kind v with
        | none =>
          rw [hf] at h
          cases h
        | some f' =>
          rw [hf] at h
          cases h
          exact .inr ⟨hk, v, readBinary64_lt hv, hf⟩

/-- A float or double constant widens to the double it was taken from. -/
theorem ofDouble_toDouble {kind : FloatKind} {d : Nat} {f : FloatConst}
    (h : ofDouble kind d = some f) : f.toDouble = some d := by
  cases kind with
  | double =>
    cases h
    rfl
  | float =>
    simp only [ofDouble] at h
    split at h
    · next hround =>
      cases h
      exact congrArg some hround
    · cases h
  | half => cases h

/-! ## The three texts -/

theorem isNumberChar_hexDigitUpper {n : Nat} (h : n < 16) : isNumberChar (hexDigitUpper n) = true := by
  interval_cases n <;> decide

theorem isNumberChar_of_isDecimalChar {c : Char} (h : IsDecimalChar c) : isNumberChar c = true := by
  rcases h with h | rfl | rfl | rfl
  · exact isNumberChar_of_isDigitChar h
  all_goals decide

theorem hexFixed_number (k v : Nat) : ∀ c ∈ (hexFixed hexDigitUpper k v).toList, isNumberChar c = true := by
  intro c hc
  obtain ⟨n, hn, rfl⟩ := hexFixed_digit hc
  exact isNumberChar_hexDigitUpper hn

/-- A text opening with `0x`, followed by number characters, is a float literal to the reader. -/
theorem hexText_number {rest : List Char} (hrest : ∀ c ∈ rest, isNumberChar c = true) :
    NumberText ('0' :: 'x' :: rest) ∧ isFloatText ('0' :: 'x' :: rest) = true := by
  refine ⟨⟨List.cons_ne_nil _ _, ?_, fun c hc => .inr (by cases hc; rfl)⟩, by simp [isFloatText, numberDigits]⟩
  intro c hc
  rcases List.mem_cons.mp hc with rfl | hc
  · rfl
  rcases List.mem_cons.mp hc with rfl | hc
  · rfl
  exact hrest c hc

/-- **A half reads back from `0xH` and its four hex digits.** -/
theorem half_reads_back {bits : Nat} (hbits : bits < Nat.pow 2 16) :
    NumberText (render ⟨.half, bits⟩).toList ∧ isFloatText (render ⟨.half, bits⟩).toList ∧
      parse .half (render ⟨.half, bits⟩) = .ok ⟨.half, bits⟩ := by
  have hrender : render ⟨.half, bits⟩ = "0xH" ++ hexFixed hexDigitUpper 4 bits := rfl
  have htext : (render ⟨.half, bits⟩).toList = '0' :: 'x' :: ('H' :: (hexFixed hexDigitUpper 4 bits).toList) := by
    rw [hrender, String.toList_append]
    rfl
  have hdigits : ∀ c ∈ 'H' :: (hexFixed hexDigitUpper 4 bits).toList, isNumberChar c = true := by
    intro c hc
    rcases List.mem_cons.mp hc with rfl | hc
    · rfl
    · exact hexFixed_number 4 bits c hc
  rw [htext]
  refine ⟨(hexText_number hdigits).1, (hexText_number hdigits).2, ?_⟩
  rw [hrender]
  refine parse_of_half (IntConst.stripPrefix?_eq_some_iff.mpr (utf8_append _ _))
    (by rw [hexFixed_length]) (readHexField_hexFixed (by decide) hbits)

/-- **A double that is not finite reads back from `0x` and its sixteen hex digits.** -/
theorem hex_reads_back {kind : FloatKind} {d : Nat} {f : FloatConst} (hkind : kind ≠ .half)
    (hd : d < Nat.pow 2 64) (hf : ofDouble kind d = some f) :
    NumberText ("0x" ++ hexFixed hexDigitUpper 16 d).toList ∧
      isFloatText ("0x" ++ hexFixed hexDigitUpper 16 d).toList ∧
      parse kind ("0x" ++ hexFixed hexDigitUpper 16 d) = .ok f := by
  have htext : ("0x" ++ hexFixed hexDigitUpper 16 d).toList =
      '0' :: 'x' :: (hexFixed hexDigitUpper 16 d).toList := by
    rw [String.toList_append]
    rfl
  have hdigits := hexFixed_number 16 d
  have hbytes := utf8_append "0x" (hexFixed hexDigitUpper 16 d)
  -- every byte of the digits lies from `0` to `F`
  have hrange : ∀ b ∈ (hexFixed hexDigitUpper 16 d).toUTF8.toList, 48 ≤ b.toNat ∧ b.toNat ≤ 70 := by
    rw [hexFixed_utf8]
    intro b hb
    obtain ⟨c, hc, rfl⟩ := List.mem_map.mp hb
    obtain ⟨n, hn, rfl⟩ := hexFixed_digit hc
    exact asciiByte_hexDigitUpper hn
  rw [htext]
  refine ⟨(hexText_number hdigits).1, (hexText_number hdigits).2, ?_⟩
  refine parse_of_hex hkind ?_ (IntConst.stripPrefix?_eq_some_iff.mpr hbytes)
    (fun b hb => hrange b (List.mem_of_mem_head? hb)) (by rw [hexFixed_length])
    (readHexField_hexFixed (by decide) (by rw [show (16 : Nat) ^ 16 = Nat.pow 2 64 from rfl]; exact hd))
    hf
  -- after `0x` comes a digit, not the `H` of a half literal
  cases h : IntConst.stripPrefix? "0xH" ("0x" ++ hexFixed hexDigitUpper 16 d).toUTF8.toList with
  | none => rfl
  | some r =>
    rw [IntConst.stripPrefix?_eq_some_iff, hbytes, utf8_0xH, utf8_0x] at h
    have hne : (hexFixed hexDigitUpper 16 d).toUTF8.toList ≠ [] := by
      rw [← List.length_pos_iff, hexFixed_length]; decide
    obtain ⟨b, bs, hbs⟩ := List.exists_cons_of_ne_nil hne
    rw [hbs] at h
    simp only [List.cons_append, List.nil_append, List.cons.injEq] at h
    have := hrange b (by rw [hbs]; exact List.mem_cons_self)
    rw [h.2.2.1] at this
    exact absurd this (by decide)

/-- **A finite double reads back from its decimal text.** -/
theorem decimal_reads_back {kind : FloatKind} {d : Nat} {f : FloatConst} {neg : Bool} {m : Nat}
    {q : Int} (hkind : kind ≠ .half) (hd : d < Nat.pow 2 64) (hdec : decode .double d = .finite neg m q)
    (hf : ofDouble kind d = some f) :
    NumberText (renderDouble d).toList ∧ isFloatText (renderDouble d).toList ∧
      parse kind (renderDouble d) = .ok f := by
  obtain ⟨ch, rest, htext, hch, hdot, hrest⟩ := renderDouble_chars hdec
  have hchars : ∀ c ∈ (renderDouble d).toList, IsDecimalChar c := by
    rw [htext]
    exact signed_isDecimalChar hch hrest
  -- the text holds no `x`, so it has neither hex prefix
  have hnox : 120 ∉ (renderDouble d).toUTF8.toList := by
    rw [utf8_of_ascii fun c hc => (hchars c hc).ascii]
    intro hx
    obtain ⟨c, hc, hcx⟩ := List.mem_map.mp hx
    have hc' := hchars c hc
    have hcode : c.toNat = 120 := by
      rw [← asciiByte_toNat hc'.ascii, hcx]
      rfl
    rcases hc' with h | rfl | rfl | rfl
    · have := IntConst.isDigit_iff.mp h; omega
    all_goals revert hcode; decide
  have hdigits : numberDigits (renderDouble d).toList = ch :: rest := by
    rw [htext]
    cases neg
    · unfold numberDigits
      split
      · next h => exact absurd (List.cons.inj h).1 (by rintro rfl; revert hch; decide)
      · rfl
    · rfl
  refine ⟨⟨by rw [htext]; simp, fun c hc => isNumberChar_of_isDecimalChar (hchars c hc), ?_⟩, ?_, ?_⟩
  · rw [htext]
    cases neg
    · intro c hc
      cases hc
      exact .inr hch
    · intro c hc
      cases hc
      exact .inl rfl
  · rw [isFloatText, hdigits, Bool.or_eq_true, List.any_eq_true]
    exact .inr ⟨'.', List.mem_cons_of_mem ch hdot, by decide⟩
  · exact parse_of_decimal hkind (stripPrefix?_of_not_mem (by rw [utf8_0xH]; simp) hnox)
      (stripPrefix?_of_not_mem (by rw [utf8_0x]; simp) hnox) (readBinary64_renderDouble hd hdec) hf

/-! ## Every parsed constant reads back -/

/-- **The text of a parsed float constant reads back**: the reader takes it for a float literal,
and parsing it at the same kind gives the same constant, bit for bit. -/
theorem render_reads_back {kind : FloatKind} {text : String} {f : FloatConst}
    (h : parse kind text = .ok f) :
    NumberText f.render.toList ∧ isFloatText f.render.toList ∧ parse kind f.render = .ok f := by
  rcases parse_stored h with ⟨rfl, hf, hbits⟩ | ⟨hkind, d, hd, hof⟩
  · rw [hf]
    exact half_reads_back hbits
  · have hrender : f.render = renderDouble d := by
      unfold render
      rw [ofDouble_toDouble hof]
    rw [hrender]
    cases hdec : decode .double d with
    | finite neg m q => exact decimal_reads_back hkind hd hdec hof
    | infinite _ | nan _ _ =>
      -- a double that is not finite is written in hex
      have htext : renderDouble d = "0x" ++ hexFixed hexDigitUpper 16 d := by
        unfold renderDouble
        rw [hdec]
      rw [htext]
      exact hex_reads_back hkind hd hof

/-- The double nearest to `0.1` is read, written and read again. -/
theorem tenth_reads_back :
    parse .double "0.1" = .ok ⟨.double, 4591870180066957722⟩ ∧
      parse .double (render ⟨.double, 4591870180066957722⟩) = .ok ⟨.double, 4591870180066957722⟩ :=
  have h : parse .double "0.1" = .ok ⟨.double, 4591870180066957722⟩ := by decide +kernel
  ⟨h, (render_reads_back h).2.2⟩

end FloatConst

end LlvmAsm
