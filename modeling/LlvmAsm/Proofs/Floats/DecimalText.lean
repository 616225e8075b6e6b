import LlvmAsm.Proofs.Floats.Shortest
import LlvmAsm.Proofs.IntegerLiterals
import LlvmAsm.Literal.Floating

/-!
# `Proofs.Floats.DecimalText` — reading back the decimal text of a double

`renderDouble` writes a finite double as its shortest digits `c · 10^e` laid out by
`doubleLayout`: with a point among the digits and as many zeros as that needs, or as one digit, a
point, the other digits and an exponent. Either way the text is digits, a point, digits, and
perhaps `e` and a signed exponent (`render_shape`), and `readNumber` reads such a text as a
decimal of the value it writes (`readNumber_layout`). That value lies in the double's rounding
interval (`shortest_holds`), so `readBinary64` rounds it back to the double
(`readBinary64_renderDouble`).

Whatever `readBinary64` returns is a pattern of 64 bits (`readBinary64_lt`).
-/

namespace LlvmAsm.Decimal

open LlvmAsm.Binary LlvmAsm.Text

/-! ## Digits as bytes -/

theorem toNat_lt_of_isDigit {c : Char} (h : c.isDigit) : c.toNat < 128 := by
  have := IntConst.isDigit_iff.mp h
  omega

theorem isDigitByte_asciiByte {c : Char} (h : c.isDigit) : isDigitByte (asciiByte c) = true := by
  have hc := IntConst.isDigit_iff.mp h
  have hb := asciiByte_toNat (toNat_lt_of_isDigit h)
  simp only [isDigitByte, Bool.and_eq_true, decide_eq_true_eq, UInt8.le_iff_toNat_le, hb]
  exact hc

/-- The byte of a digit is neither `-` nor `+`. -/
theorem asciiByte_digit_ne_sign {c : Char} (h : c.isDigit) :
    (asciiByte c == 45) = false ∧ (asciiByte c == 43) = false := by
  have hc := IntConst.isDigit_iff.mp h
  have hb := asciiByte_toNat (toNat_lt_of_isDigit h)
  -- a digit's code lies from 48 to 57, above both signs
  have h45 : (asciiByte c).toNat ≠ 45 := by omega
  have h43 : (asciiByte c).toNat ≠ 43 := by omega
  exact ⟨beq_eq_false_iff_ne.mpr fun he => h45 (by rw [he]; rfl),
    beq_eq_false_iff_ne.mpr fun he => h43 (by rw [he]; rfl)⟩

/-- The bytes of an ASCII text are the codes of its characters. -/
theorem utf8_of_ascii {t : String} (h : ∀ c ∈ t.toList, c.toNat < 128) :
    t.toUTF8.toList = t.toList.map asciiByte := by
  rw [← utf8_ofList_ascii h, String.ofList_toList]

theorem mem_toDigits_isDigit {n : Nat} {c : Char} (h : c ∈ Nat.toDigits 10 n) : c.isDigit :=
  Nat.isDigit_of_mem_toDigits (by decide) (by decide) h

/-- Reading digits after an accumulator shifts it past them. -/
theorem foldl_digitsValue (bs : List UInt8) (a : Nat) :
    bs.foldl (fun acc d => acc * 10 + (d.toNat - 48)) a = a * 10 ^ bs.length + digitsValue bs := by
  induction bs generalizing a with
  | nil => simp only [List.foldl_nil, List.length_nil, pow_zero, mul_one]; rfl
  | cons b bs ih =>
    have hcons : digitsValue (b :: bs) = (b.toNat - 48) * 10 ^ bs.length + digitsValue bs := by
      rw [show digitsValue (b :: bs) =
        bs.foldl (fun acc d => acc * 10 + (d.toNat - 48)) (0 * 10 + (b.toNat - 48)) from rfl, ih]
      ring
    rw [List.foldl_cons, ih, hcons, List.length_cons, pow_succ]
    ring

theorem digitsValue_append (xs ys : List UInt8) :
    digitsValue (xs ++ ys) = digitsValue xs * 10 ^ ys.length + digitsValue ys := by
  rw [show digitsValue (xs ++ ys) = (xs ++ ys).foldl (fun acc d => acc * 10 + (d.toNat - 48)) 0
    from rfl, List.foldl_append, foldl_digitsValue]
  rfl

theorem digitsValue_zeros (k : Nat) : digitsValue (List.replicate k 48) = 0 := by
  induction k with
  | zero => rfl
  | succ k ih => rw [List.replicate_succ', digitsValue_append, ih]; rfl

/-- The decimal digits of a natural read back as it. -/
theorem digitsValue_toDigits (n : Nat) : digitsValue ((Nat.toDigits 10 n).map asciiByte) = n := by
  calc digitsValue ((Nat.toDigits 10 n).map asciiByte)
      = (Nat.toDigits 10 n).foldl (fun acc c => acc * 10 + (c.toNat - 48)) 0 := by
        rw [show digitsValue ((Nat.toDigits 10 n).map asciiByte) = ((Nat.toDigits 10 n).map
          asciiByte).foldl (fun acc d => acc * 10 + (d.toNat - 48)) 0 from rfl, List.foldl_map]
        exact List.foldl_ext _ _ 0 fun acc c hc => by
          rw [asciiByte_toNat (toNat_lt_of_isDigit (mem_toDigits_isDigit hc))]
    _ = Nat.ofDigitChars 10 (Nat.toDigits 10 n) 0 := by
        rw [Nat.ofDigitChars_eq_foldl]
        congr 1
        funext acc c
        rw [Nat.mul_comm]
        rfl
    _ = n := Nat.ofDigitChars_ten_toDigits

/-- Zeros, the digits of `c`, and zeros: `c` shifted past the trailing zeros. -/
theorem digitsValue_padded (a z c : Nat) :
    digitsValue ((List.replicate a '0' ++ Nat.toDigits 10 c ++ List.replicate z '0').map asciiByte) =
      c * 10 ^ z := by
  have hzero : ∀ k, (List.replicate k '0').map asciiByte = List.replicate k 48 := fun k => by
    rw [List.map_replicate]
    rfl
  rw [List.map_append, List.map_append, hzero, hzero, digitsValue_append, digitsValue_append,
    digitsValue_zeros, digitsValue_zeros, digitsValue_toDigits, List.length_replicate]
  simp

/-- A run of digits and what follows it, when that starts with no digit. -/
theorem takeWhile_digits {ds : List Char} (hds : ∀ c ∈ ds, c.isDigit) (rest : List UInt8)
    (hr : ∀ b ∈ rest.head?, isDigitByte b = false) :
    (ds.map asciiByte ++ rest).takeWhile isDigitByte = ds.map asciiByte ∧
      (ds.map asciiByte ++ rest).dropWhile isDigitByte = rest := by
  have hall : ∀ b ∈ ds.map asciiByte, isDigitByte b = true := by
    simp only [List.mem_map]
    rintro b ⟨c, hc, rfl⟩
    exact isDigitByte_asciiByte (hds c hc)
  rw [List.takeWhile_append_of_pos hall, List.dropWhile_append_of_pos hall]
  cases rest with
  | nil => simp
  | cons b rest => simp [hr b rfl]

/-! ## Reading a number with a point -/

section Point

variable {W F : List Char}

/-- **Digits, a point and digits read as the digits over the fraction's length.** -/
theorem readNumber_fixed (hW : W ≠ []) (hWd : ∀ c ∈ W, c.isDigit) (hFd : ∀ c ∈ F, c.isDigit) :
    readNumber ((W ++ '.' :: F).map asciiByte) =
      some ⟨digitsValue ((W ++ F).map asciiByte), -(F.length : Int)⟩ := by
  obtain ⟨hwt, hwd⟩ := takeWhile_digits hWd (46 :: F.map asciiByte)
    (by simp only [List.head?_cons, Option.mem_def, Option.some.injEq]; rintro b rfl; decide)
  obtain ⟨hft, hfd⟩ := takeWhile_digits hFd [] (by simp)
  rw [List.append_nil] at hft hfd
  have hbytes : (W ++ '.' :: F).map asciiByte = W.map asciiByte ++ 46 :: F.map asciiByte := by
    rw [List.map_append, List.map_cons]
    rfl
  have hne : (W.map asciiByte).isEmpty = false := by simpa using hW
  rw [hbytes]
  unfold readNumber
  simp only [hwt, hwd, hft, hfd, hne, Bool.false_and, Bool.false_eq_true, if_false, List.map_append,
    List.length_map]

/-- **Digits, a point, digits and an exponent** read as the digits over the fraction's length,
times ten to the exponent. -/
theorem readNumber_scientific (hW : W ≠ []) (hWd : ∀ c ∈ W, c.isDigit) (hFd : ∀ c ∈ F, c.isDigit)
    {x : Int} (hx : readExponent ((toString x).toList.map asciiByte) = some (x, [])) :
    readNumber ((W ++ '.' :: F ++ 'e' :: (toString x).toList).map asciiByte) =
      some ⟨digitsValue ((W ++ F).map asciiByte), -(F.length : Int) + x⟩ := by
  set X := (toString x).toList.map asciiByte
  obtain ⟨hwt, hwd⟩ := takeWhile_digits hWd (46 :: (F.map asciiByte ++ 101 :: X))
    (by simp only [List.head?_cons, Option.mem_def, Option.some.injEq]; rintro b rfl; decide)
  obtain ⟨hft, hfd⟩ := takeWhile_digits hFd (101 :: X)
    (by simp only [List.head?_cons, Option.mem_def, Option.some.injEq]; rintro b rfl; decide)
  have hbytes : (W ++ '.' :: F ++ 'e' :: (toString x).toList).map asciiByte =
      W.map asciiByte ++ 46 :: (F.map asciiByte ++ 101 :: X) := by
    simp only [List.map_append, List.map_cons, List.append_assoc, List.cons_append]
    rfl
  have hne : (W.map asciiByte).isEmpty = false := by simpa using hW
  rw [hbytes]
  unfold readNumber
  simp only [hwt, hwd, hft, hfd, hne, Bool.false_and, Bool.false_eq_true, if_false, List.map_append,
    List.length_map, hx]
  rfl

end Point

/-- **A written integer reads back as an exponent.** -/
theorem readExponent_toString (x : Int) : readExponent ((toString x).toList.map asciiByte) = some (x, []) := by
  rw [Int.toString_eq_repr, Int.repr_eq_if]
  split
  · rename_i hx
    obtain ⟨d, ds, hD⟩ := List.exists_cons_of_ne_nil (Nat.toDigits_ne_nil (n := x.toNat) (b := 10))
    have hdig : ∀ c ∈ Nat.toDigits 10 x.toNat, c.isDigit := fun c hc => mem_toDigits_isDigit hc
    obtain ⟨h45, h43⟩ := asciiByte_digit_ne_sign (hdig d (by rw [hD]; exact List.mem_cons_self))
    obtain ⟨ht, hdrop⟩ := takeWhile_digits hdig [] (by simp)
    rw [List.append_nil] at ht hdrop
    have hne : ((Nat.toDigits 10 x.toNat).map asciiByte).isEmpty = false := by simp [Nat.toDigits_ne_nil]
    rw [Nat.toList_repr]
    unfold readExponent
    rw [hD, List.map_cons]
    simp only [h45, h43, Bool.false_eq_true, if_false]
    rw [← List.map_cons, ← hD, ht, hdrop, hne, digitsValue_toDigits]
    simp only [Bool.false_eq_true, if_false, Int.toNat_of_nonneg hx]
  · rename_i hx
    have hdig : ∀ c ∈ Nat.toDigits 10 (-x).toNat, c.isDigit := fun c hc => mem_toDigits_isDigit hc
    obtain ⟨ht, hdrop⟩ := takeWhile_digits hdig [] (by simp)
    rw [List.append_nil] at ht hdrop
    have hne : ((Nat.toDigits 10 (-x).toNat).map asciiByte).isEmpty = false := by
      simp [Nat.toDigits_ne_nil]
    rw [String.toList_append, Nat.toList_repr]
    unfold readExponent
    simp only [show "-".toList = ['-'] from rfl, List.cons_append, List.nil_append, List.map_cons,
      show asciiByte '-' = 45 from rfl, beq_self_eq_true, if_true]
    rw [ht, hdrop, hne, digitsValue_toDigits]
    simp only [Bool.false_eq_true, if_false]
    congr 2
    omega

/-! ## The layout of shortest digits -/

theorem toString_nat_toList (c : Nat) : (toString c).toList = Nat.toDigits 10 c := by
  rw [Nat.toString_eq_ofList_toDigits, String.toList_ofList]

theorem zeros_toList (k : Nat) : (zeros k).toList = List.replicate k '0' := String.toList_ofList

theorem zeros_length (k : Nat) : (zeros k).length = k := by
  rw [← String.length_toList, zeros_toList, List.length_replicate]

/-- **The shape of laid-out digits**: digits `W` (at least one), a point, digits `F`, and either
nothing or `e` and a written exponent `x`. The digits are those of `c` with `a` zeros before them
and `z` after, and the exponents add up to `e`, so the text writes `c · 10^e`. -/
theorem render_shape (c : Nat) (e mag : Int) : ∃ (W F : List Char) (x : Int) (a z : Nat),
    W ≠ [] ∧ W ++ F = List.replicate a '0' ++ Nat.toDigits 10 c ++ List.replicate z '0' ∧
      (z : Int) - F.length + x = e ∧
      ((doubleLayout.render c e mag).toList = W ++ '.' :: F ∧ x = 0 ∨
        (doubleLayout.render c e mag).toList = W ++ '.' :: F ++ 'e' :: (toString x).toList) := by
  have hDne : Nat.toDigits 10 c ≠ [] := Nat.toDigits_ne_nil
  have hDpos : 0 < (Nat.toDigits 10 c).length := List.length_pos_of_ne_nil hDne
  have hlen : (toString c).length = (Nat.toDigits 10 c).length := by
    rw [← String.length_toList, toString_nat_toList]
  unfold DecimalLayout.render
  simp only [doubleLayout, hlen, toString_nat_toList]
  split
  · split
    · -- the point before the digits: `0.`, zeros, the digits
      rename_i hp
      refine ⟨['0'], List.replicate (-((Nat.toDigits 10 c).length + e)).toNat '0' ++
        Nat.toDigits 10 c ++ List.replicate (1 - ((-((Nat.toDigits 10 c).length + e)).toNat +
          (Nat.toDigits 10 c).length)) '0', 0, (-((Nat.toDigits 10 c).length + e)).toNat + 1,
        1 - ((-((Nat.toDigits 10 c).length + e)).toNat + (Nat.toDigits 10 c).length),
        List.cons_ne_nil _ _, ?_, ?_, .inl ⟨?_, rfl⟩⟩
      · rw [List.replicate_succ]
        simp
      · simp only [List.length_append, List.length_replicate]
        omega
      · simp only [String.toList_append, zeros_toList, toString_nat_toList, String.length_append,
          zeros_length, hlen]
        rfl
    · split
      · -- the point among the digits
        rename_i hp hlt
        refine ⟨(Nat.toDigits 10 c).take ((Nat.toDigits 10 c).length + e).toNat,
          (Nat.toDigits 10 c).drop ((Nat.toDigits 10 c).length + e).toNat ++
            List.replicate (1 - ((Nat.toDigits 10 c).length -
              ((Nat.toDigits 10 c).length + e).toNat)) '0', 0, 0,
          1 - ((Nat.toDigits 10 c).length - ((Nat.toDigits 10 c).length + e).toNat), ?_, ?_, ?_,
          .inl ⟨?_, rfl⟩⟩
        · simp only [ne_eq, List.take_eq_nil_iff, not_or]
          exact ⟨by omega, hDne⟩
        · rw [← List.append_assoc, List.take_append_drop]
          simp
        · simp only [List.length_append, List.length_drop, List.length_replicate]
          omega
        · simp only [String.toList_append, String.toList_ofList, zeros_toList, String.length_ofList,
            List.length_drop]
          simp
      · -- the point after the digits: the digits, zeros, `.0`
        rename_i hp hge
        refine ⟨Nat.toDigits 10 c ++ List.replicate (((Nat.toDigits 10 c).length + e).toNat -
            (Nat.toDigits 10 c).length) '0', ['0'], 0, 0,
          ((Nat.toDigits 10 c).length + e).toNat - (Nat.toDigits 10 c).length + 1,
          by simp [hDne], ?_, ?_, .inl ⟨?_, rfl⟩⟩
        · rw [List.replicate_succ']
          simp
        · simp only [List.length_singleton]
          omega
        · simp only [String.toList_append, zeros_toList, toString_nat_toList]
          rw [List.append_assoc]
          rfl
  · -- one digit, the point, the other digits, the exponent
    refine ⟨(Nat.toDigits 10 c).take 1, (Nat.toDigits 10 c).drop 1 ++
        List.replicate (1 - ((Nat.toDigits 10 c).length - 1)) '0',
      (Nat.toDigits 10 c).length + e - 1, 0, 1 - ((Nat.toDigits 10 c).length - 1), ?_, ?_, ?_,
      .inr ?_⟩
    · simp only [ne_eq, List.take_eq_nil_iff, not_or]
      exact ⟨by omega, hDne⟩
    · rw [← List.append_assoc, List.take_append_drop]
      simp
    · simp only [List.length_append, List.length_drop, List.length_replicate]
      omega
    · simp only [String.toList_append, String.toList_ofList, zeros_toList, String.length_ofList,
        List.length_drop]
      simp

/-- The characters of laid-out digits before the point and after it are digits. -/
theorem shape_digits {W F : List Char} {a z c : Nat}
    (h : W ++ F = List.replicate a '0' ++ Nat.toDigits 10 c ++ List.replicate z '0') :
    ∀ ch ∈ W ++ F, ch.isDigit := by
  rw [h]
  intro ch hch
  simp only [List.mem_append, List.mem_replicate] at hch
  rcases hch with (⟨-, rfl⟩ | hch) | ⟨-, rfl⟩
  · decide
  · exact mem_toDigits_isDigit hch
  · decide

/-- **The text of positive digits reads back as their value.** -/
theorem readNumber_layout {c : Nat} (hc : 0 < c) (e mag : Int) :
    ∃ n : DecimalNumber, readNumber ((doubleLayout.render c e mag).toList.map asciiByte) = some n ∧
      0 < n.mantissa ∧ (n.mantissa : ℚ) * 10 ^ n.exponent = c * 10 ^ e := by
  obtain ⟨W, F, x, a, z, hW, hWF, hexp, htext⟩ := render_shape c e mag
  have hdigits := shape_digits hWF
  have hWd : ∀ ch ∈ W, ch.isDigit := fun ch h => hdigits ch (List.mem_append_left F h)
  have hFd : ∀ ch ∈ F, ch.isDigit := fun ch h => hdigits ch (List.mem_append_right W h)
  have hM : digitsValue ((W ++ F).map asciiByte) = c * 10 ^ z := by rw [hWF, digitsValue_padded]
  have hpos : 0 < c * 10 ^ z := Nat.mul_pos hc (Nat.pow_pos (by norm_num))
  -- the trailing zeros and the fraction's length cancel against the exponent
  have hvalue : ((c * 10 ^ z : Nat) : ℚ) * 10 ^ (-(F.length : Int) + x) = c * 10 ^ e := by
    rw [Nat.cast_mul, Nat.cast_pow, Nat.cast_ofNat, ← zpow_natCast, mul_assoc,
      ← zpow_add₀ (by norm_num)]
    congr 2
    omega
  rcases htext with ⟨htext, rfl⟩ | htext
  · refine ⟨⟨digitsValue ((W ++ F).map asciiByte), -(F.length : Int)⟩,
      by rw [htext, readNumber_fixed hW hWd hFd], ?_, ?_⟩
    · rw [hM]; exact hpos
    · dsimp only
      rw [hM, ← hvalue, add_zero]
  · refine ⟨⟨digitsValue ((W ++ F).map asciiByte), -(F.length : Int) + x⟩,
      by rw [htext, readNumber_scientific hW hWd hFd (readExponent_toString x)], ?_, ?_⟩
    · rw [hM]; exact hpos
    · dsimp only
      rw [hM, hvalue]

/-! ## The characters of the text of a double -/

/-- The characters of decimal float text: digits, the point, the exponent mark and the minus
sign. -/
def IsDecimalChar (ch : Char) : Prop := ch.isDigit ∨ ch = '.' ∨ ch = 'e' ∨ ch = '-'

theorem IsDecimalChar.ascii {ch : Char} (h : IsDecimalChar ch) : ch.toNat < 128 := by
  rcases h with h | rfl | rfl | rfl
  · exact toNat_lt_of_isDigit h
  all_goals decide

theorem toString_int_chars (x : Int) : ∀ ch ∈ (toString x).toList, ch.isDigit ∨ ch = '-' := by
  rw [Int.toString_eq_repr, Int.repr_eq_if]
  split
  · rw [Nat.toList_repr]
    exact fun ch h => .inl (mem_toDigits_isDigit h)
  · rw [String.toList_append, Nat.toList_repr]
    intro ch h
    rcases List.mem_append.mp h with h | h
    · exact .inr (List.mem_singleton.mp h)
    · exact .inl (mem_toDigits_isDigit h)

/-- **The text of laid-out digits** opens with a digit and goes on with decimal characters, the
point among them. -/
theorem render_chars (c : Nat) (e mag : Int) : ∃ ch rest,
    (doubleLayout.render c e mag).toList = ch :: rest ∧ ch.isDigit ∧ '.' ∈ rest ∧
      ∀ x ∈ rest, IsDecimalChar x := by
  obtain ⟨W, F, x, a, z, hW, hWF, -, htext⟩ := render_shape c e mag
  have hdigits := shape_digits hWF
  obtain ⟨w, ws, rfl⟩ := List.exists_cons_of_ne_nil hW
  have hw := hdigits w (by simp)
  have hrest : ∀ y ∈ ws ++ '.' :: F, IsDecimalChar y := by
    intro y hy
    rcases List.mem_append.mp hy with h | h
    · exact .inl (hdigits y (by simp [h]))
    · rcases List.mem_cons.mp h with rfl | h
      · exact .inr (.inl rfl)
      · exact .inl (hdigits y (by simp [h]))
  rcases htext with ⟨htext, -⟩ | htext
  · exact ⟨w, ws ++ '.' :: F, by rw [htext]; rfl, hw, by simp, hrest⟩
  · refine ⟨w, ws ++ '.' :: F ++ 'e' :: (toString x).toList, by rw [htext]; rfl, hw, by simp, ?_⟩
    intro y hy
    rcases List.mem_append.mp hy with h | h
    · exact hrest y h
    · rcases List.mem_cons.mp h with rfl | h
      · exact .inr (.inr (.inl rfl))
      · rcases toString_int_chars x y h with h | rfl
        · exact .inl h
        · exact .inr (.inr (.inr rfl))

/-! ## Reading the text of a double back -/

theorem toList_sign (neg : Bool) : (if neg then "-" else "").toList = if neg then ['-'] else [] := by
  cases neg <;> rfl

/-- The characters of an optional `-` before decimal characters that open with a digit. -/
theorem signed_isDecimalChar {neg : Bool} {ch : Char} {rest : List Char} (hch : ch.isDigit)
    (hrest : ∀ x ∈ rest, IsDecimalChar x) :
    ∀ x ∈ (if neg then ['-'] else []) ++ ch :: rest, IsDecimalChar x := by
  intro x hx
  rcases List.mem_append.mp hx with h | h
  · cases neg
    · cases h
    · rw [List.mem_singleton.mp h]
      exact .inr (.inr (.inr rfl))
  · rcases List.mem_cons.mp h with rfl | h
    · exact .inl hch
    · exact hrest x h

/-- **A signed number reads as the double nearest to its value**: the text is an optional `-`
before decimal characters that open with a digit. -/
theorem readBinary64_signed {text : String} {neg : Bool} {ch : Char} {rest : List Char}
    (htext : text.toList = (if neg then ['-'] else []) ++ ch :: rest) (hch : ch.isDigit)
    (hrest : ∀ x ∈ rest, IsDecimalChar x) {n : DecimalNumber}
    (hn : readNumber ((ch :: rest).map asciiByte) = some n) :
    readBinary64 text = .ok (n.toBinary64 neg) := by
  have hascii : ∀ x ∈ text.toList, x.toNat < 128 := by
    rw [htext]
    exact fun x hx => (signed_isDecimalChar hch hrest x hx).ascii
  have hbytes := utf8_of_ascii hascii
  rw [htext] at hbytes
  -- the first byte of the number is a digit: no sign
  obtain ⟨h45, h43⟩ := asciiByte_digit_ne_sign hch
  unfold readBinary64
  cases neg with
  | false =>
    rw [if_neg Bool.false_ne_true, List.nil_append, List.map_cons] at hbytes
    rw [hbytes]
    simp only [h45, h43, Bool.or_self, Bool.false_eq_true, if_false, List.isEmpty_cons]
    rw [← List.map_cons, hn]
  | true =>
    rw [if_pos rfl, List.singleton_append, List.map_cons] at hbytes
    rw [hbytes]
    simp only [show asciiByte '-' = 45 from rfl, beq_self_eq_true, Bool.true_or, if_true,
      List.map_cons, List.isEmpty_cons, Bool.false_eq_true, if_false]
    rw [← List.map_cons, hn]

/-- Encoding the zero significand gives the zero of its sign. -/
theorem encode_zero (f : Format) (neg : Bool) (q : Int) : encode f neg 0 q = f.pack neg 0 0 := by
  unfold encode
  rw [if_pos (show 0 < Nat.pow 2 f.fractionBits from Nat.two_pow_pos _)]

theorem RoundingInterval.le_of_below {r : RoundingInterval} {a b : ℚ} (h : r.Below a b) : a ≤ b := by
  unfold RoundingInterval.Below at h
  split at h
  · exact h
  · exact h.le

/-- The first power of two past the doubles is below `10^310`. -/
theorem two_pow_1024_lt : (2 : ℚ) ^ (1024 : Int) < 10 ^ (310 : Int) := by
  have h : ((2 ^ 1024 : ℕ) : ℚ) < ((10 ^ 310 : ℕ) : ℚ) := by
    exact_mod_cast (by decide +kernel : 2 ^ 1024 < 10 ^ 310)
  rw [Nat.cast_pow, Nat.cast_pow] at h
  rw [zpow_ofNat, zpow_ofNat]
  exact_mod_cast h

/-- Half the least subnormal is above `10^-331`. -/
theorem ten_pow_lt_two_pow_neg : (10 : ℚ) ^ (-331 : Int) < 2 ^ (-1075 : Int) := by
  have h : ((2 ^ 1075 : ℕ) : ℚ) < ((10 ^ 331 : ℕ) : ℚ) := by
    exact_mod_cast (by decide +kernel : 2 ^ 1075 < 10 ^ 331)
  rw [Nat.cast_pow, Nat.cast_pow] at h
  rw [zpow_neg, zpow_neg, zpow_ofNat, zpow_ofNat, inv_lt_inv₀ (by positivity) (by positivity)]
  exact_mod_cast h

/-- **A decimal in the rounding interval of a finite double reads as that double.** Its value
lies between `2^-1075` and `2^1024`, so it has between `-330` and `310` digits before the point
and the shortcuts for huge and tiny values are not taken. -/
theorem toBinary64_of_holds {d : Nat} (hd : d < Nat.pow 2 64) {neg : Bool} {m : Nat} {q : Int}
    (hdec : decode .double d = .finite neg m q) (hm : m ≠ 0) {n : DecimalNumber}
    (hpos : 0 < n.mantissa)
    (hx : (RoundingInterval.of m q (isBinadeStart .double d)).Holds (n.mantissa * 10 ^ n.exponent)) :
    n.toBinary64 neg = d := by
  obtain ⟨hm53, hq⟩ := decode_double_bounds hd hdec
  have hm1 : 1 ≤ m := Nat.one_le_iff_ne_zero.mpr hm
  have hmq : (1 : ℚ) ≤ m := by exact_mod_cast hm1
  have hmq53 : (m : ℚ) + 1 / 2 ≤ 2 ^ (53 : Int) := by
    have : m + 1 ≤ Nat.pow 2 53 := hm53
    have : ((m + 1 : Nat) : ℚ) ≤ ((Nat.pow 2 53 : Nat) : ℚ) := by exact_mod_cast this
    rw [two_pow_natCast] at this
    push_cast at this
    linarith
  set V : ℚ := n.mantissa * 10 ^ n.exponent with hV
  -- the value lies between half the least subnormal and the first power of two past the doubles
  have hlo : (2 : ℚ) ^ (-1075 : Int) ≤ V := by
    have h := RoundingInterval.le_of_below hx.1
    rw [RoundingInterval.of_low_ratio hm1] at h
    have hw : (if isBinadeStart .double d then (1 / 4 : ℚ) else 1 / 2) ≤ 1 / 2 := by
      split <;> norm_num
    calc (2 : ℚ) ^ (-1075 : Int) = 1 / 2 * 2 ^ (-1074 : Int) := by
          rw [show (-1075 : Int) = -1 + -1074 by norm_num, zpow_add₀ two_ne_zero]
          norm_num
      _ ≤ ((m : ℚ) - (if isBinadeStart .double d then 1 / 4 else 1 / 2)) * 2 ^ q :=
          mul_le_mul (by linarith) (zpow_le_zpow_right₀ one_le_two hq.1) (by positivity)
            (by linarith)
      _ ≤ V := h
  have hhi : V ≤ 2 ^ (1024 : Int) := by
    have h := RoundingInterval.le_of_below hx.2
    rw [RoundingInterval.of_high_ratio] at h
    calc V ≤ ((m : ℚ) + 1 / 2) * 2 ^ q := h
      _ ≤ 2 ^ (53 : Int) * 2 ^ (971 : Int) :=
          mul_le_mul hmq53 (zpow_le_zpow_right₀ one_le_two hq.2) (by positivity) (by positivity)
      _ = 2 ^ (1024 : Int) := by rw [← zpow_add₀ two_ne_zero]; norm_num
  -- hence the leading digit's position `top` lies within the computed range
  obtain ⟨hL₁, hL₂⟩ := digitCount_bounds hpos
  set top := n.exponent + digitCount n.mantissa
  have hten : (0 : ℚ) < 10 ^ n.exponent := zpow_pos (by norm_num) _
  have htop₁ : (10 : ℚ) ^ (top - 1) ≤ V := by
    rw [hV, show top - 1 = ((digitCount n.mantissa : Int) - 1) + n.exponent by ring,
      zpow_add₀ (by norm_num)]
    exact mul_le_mul_of_nonneg_right hL₁ hten.le
  have htop₂ : V < 10 ^ top := by
    rw [hV, show top = (digitCount n.mantissa : Int) + n.exponent by ring, zpow_add₀ (by norm_num)]
    exact mul_lt_mul_of_pos_right hL₂ hten
  have hhuge : ¬ 310 < top := by
    intro h
    have h310 : (10 : ℚ) ^ (310 : Int) ≤ 10 ^ (top - 1) := zpow_le_zpow_right₀ (by norm_num) (by omega)
    exact absurd (lt_of_le_of_lt (h310.trans (htop₁.trans hhi)) two_pow_1024_lt) (lt_irrefl _)
  have htiny : ¬ top < -330 := by
    intro h
    have h331 : (10 : ℚ) ^ top ≤ 10 ^ (-331 : Int) := zpow_le_zpow_right₀ (by norm_num) (by omega)
    exact absurd (lt_of_le_of_lt (hlo.trans htop₂.le) (h331.trans_lt ten_pow_lt_two_pow_neg))
      (lt_irrefl _)
  unfold DecimalNumber.toBinary64
  rw [if_neg hpos.ne']
  dsimp only
  rw [if_neg hhuge, if_neg htiny]
  rcases hs : scaleByTen n.mantissa n.exponent with ⟨num, den⟩
  obtain ⟨hnum, hden, hratio⟩ := scaleByTen_pos hpos hs
  dsimp only
  exact roundRatio_of_holds hd hdec hm hnum hden (by rw [hratio]; exact hx)

/-- Zero is written `0.0` after its sign. -/
theorem toList_signedZero (neg : Bool) :
    ((if neg then "-" else "") ++ "0." ++ zeros doubleLayout.minFraction).toList =
      (if neg then ['-'] else []) ++ '0' :: ['.', '0'] := by
  rw [String.toList_append, String.toList_append, toList_sign, List.append_assoc]
  rfl

theorem isDecimalChar_point_zero : ∀ c ∈ ['.', '0'], IsDecimalChar c := fun c hc => by
  rcases List.mem_cons.mp hc with rfl | hc
  · exact .inr (.inl rfl)
  · rw [List.mem_singleton.mp hc]; exact .inl rfl

/-- **The text of a finite double reads back as the double.** -/
theorem readBinary64_renderDouble {d : Nat} (hd : d < Nat.pow 2 64) {neg : Bool} {m : Nat}
    {q : Int} (hdec : decode .double d = .finite neg m q) : readBinary64 (renderDouble d) = .ok d := by
  obtain ⟨henc, -, hstart⟩ := decode_double_finite hd hdec
  unfold renderDouble
  rw [hdec]
  dsimp only
  by_cases hm : m = 0
  · -- zero is written `0.0`, after its sign
    rw [if_pos hm]
    subst hm
    have hzero : ∀ c ∈ ['0'], c.isDigit := fun c hc => by rw [List.mem_singleton.mp hc]; rfl
    have hn := readNumber_fixed (List.cons_ne_nil _ _) hzero hzero
    rw [readBinary64_signed (toList_signedZero neg) rfl isDecimalChar_point_zero hn, ← henc,
      encode_zero]
    rfl
  · rw [if_neg hm]
    have hm53 := (decode_double_bounds hd hdec).1
    obtain ⟨hc, hholds⟩ := shortest_holds (q := q) (Nat.pos_of_ne_zero hm) hm53 hstart.mp
    rcases hsh : shortest m q (isBinadeStart .double d) with ⟨c, e⟩
    rw [hsh] at hc hholds
    rcases hsc : scaleByTwo m q with ⟨num, den⟩
    dsimp only at hc hholds ⊢
    obtain ⟨n, hn, hnpos, hnval⟩ := readNumber_layout hc e (decimalExponent num den)
    obtain ⟨ch, rest, hchars, hch, -, hrest⟩ := render_chars c e (decimalExponent num den)
    have htext : ((if neg then "-" else "") ++ doubleLayout.render c e (decimalExponent num den)).toList =
        (if neg then ['-'] else []) ++ ch :: rest := by
      rw [String.toList_append, toList_sign, hchars]
    rw [hchars] at hn
    rw [readBinary64_signed htext hch hrest hn,
      toBinary64_of_holds hd hdec hm hnpos (by rw [hnval]; exact hholds)]

/-- **The text of a finite double** is its sign and decimal characters that open with a digit
and hold the point. -/
theorem renderDouble_chars {d : Nat} {neg : Bool} {m : Nat} {q : Int}
    (hdec : decode .double d = .finite neg m q) : ∃ ch rest,
      (renderDouble d).toList = (if neg then ['-'] else []) ++ ch :: rest ∧ ch.isDigit ∧
        '.' ∈ rest ∧ ∀ x ∈ rest, IsDecimalChar x := by
  unfold renderDouble
  rw [hdec]
  dsimp only
  split
  · exact ⟨'0', ['.', '0'], toList_signedZero neg, rfl, by simp, isDecimalChar_point_zero⟩
  · rcases shortest m q (isBinadeStart .double d) with ⟨c, e⟩
    rcases scaleByTwo m q with ⟨num, den⟩
    dsimp only
    obtain ⟨ch, rest, hchars, hch, hdot, hrest⟩ := render_chars c e (decimalExponent num den)
    exact ⟨ch, rest, by rw [String.toList_append, toList_sign, hchars], hch, hdot, hrest⟩

/-! ## Every double read has 64 bits -/

theorem toBinary64_lt (n : DecimalNumber) (neg : Bool) : n.toBinary64 neg < Nat.pow 2 64 := by
  unfold DecimalNumber.toBinary64
  split
  · exact pack_double_lt neg (by decide) (Nat.two_pow_pos _)
  · dsimp only
    split
    · exact pack_double_lt neg (by decide) (Nat.two_pow_pos _)
    · split
      · exact pack_double_lt neg (by decide) (Nat.two_pow_pos _)
      · exact roundRatio_double_lt neg _ _

/-- **Every double read from decimal text is a pattern of 64 bits.** -/
theorem readBinary64_lt {text : String} {d : Nat} (h : readBinary64 text = .ok d) :
    d < Nat.pow 2 64 := by
  unfold readBinary64 at h
  split at h
  · cases h
  · next b rest _ =>
    dsimp only at h
    -- the text after its sign
    by_cases hs : (b == 45 || b == 43) = true
    all_goals first | rw [if_pos hs] at h | rw [if_neg hs] at h
    -- a number, an infinity or the quiet NaN; every other outcome is a refusal
    all_goals
      repeat' split at h
      all_goals cases h
      · exact toBinary64_lt _ _
      · unfold Format.infinity
        exact pack_double_lt _ (by decide) (Nat.two_pow_pos _)
      · unfold quietNaN
        exact pack_double_lt _ (by decide) (Nat.pow_lt_pow_right (by decide) (by decide))

end LlvmAsm.Decimal
