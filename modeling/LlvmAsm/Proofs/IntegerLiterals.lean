import Mathlib.Data.Nat.Digits.Defs
import Mathlib.Data.Int.ModEq
import LlvmAsm.Literal.Integer
import LlvmAsm.Proofs.Text.Ascii

/-!
# `Proofs.IntegerLiterals` — reading an integer literal at a width

`IntConst.parse bits text` reads the literal `text` at the width `bits`. The texts it accepts are
described here on their own, as a grammar over characters (`Literal`): `true` and `false` at
width one, `u0x` or `s0x` followed by hex digits, and decimal digits with an optional `-`. Each
writes a value (`Numeral` gives the value of a run of digits through `Nat.ofDigits`), and that
value must lie in `[-2^(bits-1), 2^bits)`, where both the signed and the unsigned reading of the
width fit it.

Main statements:

* `parse_eq_ok_iff` — a literal is accepted exactly when the width lies in `1..2^23`, the text is
  a `Literal` and its value is in range, and then the constant has that width and the value in
  the signed range `[-2^(bits-1), 2^(bits-1))` with the same low `bits` bits;
* `parse_error` — every refusal is a malformed integer literal, naming the text;
* `parse_render` — the text of a constant read at its width gives the constant back.

The reading works on the text's bytes and the grammar on its characters; they meet through the
ASCII lemmas of `Proofs.Text.Ascii`, since every accepted text is ASCII.
-/

namespace LlvmAsm.IntConst

open Text

/-! ## The literal texts -/

/-- The value of an ASCII hex digit of either case; for a decimal digit, its value. -/
def hexDigitValue (c : Char) : Nat :=
  if c.isDigit then c.toNat - '0'.toNat
  else if c.isLower then c.toNat - 'a'.toNat + 10
  else c.toNat - 'A'.toNat + 10

/-- A numeral in `radix` (at most sixteen): a non-empty run of ASCII hex digits, each of value
below `radix`, writing `v` with its most significant digit first. In radix ten the digits are
the ASCII decimal digits (`digit_ten_iff`). -/
structure Numeral (radix : Nat) (ds : List Char) (v : Nat) : Prop where
  ne_nil : ds ≠ []
  digit : ∀ c ∈ ds, c.isHexDigit ∧ hexDigitValue c < radix
  value : v = Nat.ofDigits radix (ds.map hexDigitValue).reverse

/-- The literal texts of integers at width `bits` and the value each writes before the range
check: `true` and `false` at width one, `u0x` or `s0x` and a hex numeral, or a decimal numeral
after an optional `-`. -/
inductive Literal (bits : Nat) : List Char → Int → Prop
  | bool (b : Bool) : bits = 1 → Literal bits (toString b).toList (if b then 1 else 0)
  | unsignedHex {ds : List Char} {v : Nat} :
      Numeral 16 ds v → Literal bits ('u' :: '0' :: 'x' :: ds) v
  | signedHex {ds : List Char} {v : Nat} :
      Numeral 16 ds v → Literal bits ('s' :: '0' :: 'x' :: ds) v
  | decimal {ds : List Char} {v : Nat} : Numeral 10 ds v → Literal bits ds v
  | negative {ds : List Char} {v : Nat} : Numeral 10 ds v → Literal bits ('-' :: ds) (-v)

/-! ## Digits as characters and as bytes -/

theorem isDigit_iff {c : Char} : c.isDigit ↔ 48 ≤ c.toNat ∧ c.toNat ≤ 57 := by
  simp [Char.isDigit, UInt32.le_iff_toNat_le]

theorem isLower_iff {c : Char} : c.isLower ↔ 97 ≤ c.toNat ∧ c.toNat ≤ 122 := by
  show (c.val ≥ 'a'.val && c.val ≤ 'z'.val) = true ↔ _
  simp [UInt32.le_iff_toNat_le]

theorem isHexDigit_iff {c : Char} : c.isHexDigit ↔
    (48 ≤ c.toNat ∧ c.toNat ≤ 57) ∨ (97 ≤ c.toNat ∧ c.toNat ≤ 102) ∨
      (65 ≤ c.toNat ∧ c.toNat ≤ 70) := by
  simp [Char.isHexDigit, Char.isDigit, UInt32.le_iff_toNat_le, or_assoc]

theorem hexValue?_eq_some_iff {b : UInt8} {x : Nat} : Text.hexValue? b = some x ↔
    (48 ≤ b.toNat ∧ b.toNat ≤ 57 ∧ x = b.toNat - 48) ∨
      (65 ≤ b.toNat ∧ b.toNat ≤ 70 ∧ x = b.toNat - 55) ∨
      (97 ≤ b.toNat ∧ b.toNat ≤ 102 ∧ x = b.toNat - 87) := by
  unfold Text.hexValue?
  simp only [Bool.and_eq_true, decide_eq_true_eq, UInt8.le_iff_toNat_le]
  split_ifs <;> simp_all <;> omega

/-- The value of a hex digit, by its code. -/
theorem hexDigitValue_eq {c : Char} (h : c.isHexDigit) :
    (48 ≤ c.toNat ∧ c.toNat ≤ 57 ∧ hexDigitValue c = c.toNat - 48) ∨
      (65 ≤ c.toNat ∧ c.toNat ≤ 70 ∧ hexDigitValue c = c.toNat - 55) ∨
      (97 ≤ c.toNat ∧ c.toNat ≤ 102 ∧ hexDigitValue c = c.toNat - 87) := by
  rw [isHexDigit_iff] at h
  unfold hexDigitValue
  by_cases hd : c.isDigit
  · rw [if_pos hd]
    rw [isDigit_iff] at hd
    exact .inl ⟨hd.1, hd.2, rfl⟩
  · rw [if_neg hd]
    rw [isDigit_iff] at hd
    by_cases hl : c.isLower
    · rw [if_pos hl]
      rw [isLower_iff] at hl
      right; right
      refine ⟨by omega, by omega, ?_⟩
      show c.toNat - 97 + 10 = c.toNat - 87
      omega
    · rw [if_neg hl]
      rw [isLower_iff] at hl
      right; left
      refine ⟨by omega, by omega, ?_⟩
      show c.toNat - 65 + 10 = c.toNat - 55
      omega

theorem toNat_lt_of_isHexDigit {c : Char} (h : c.isHexDigit) : c.toNat < 128 := by
  rw [isHexDigit_iff] at h
  omega

/-- A hex digit character is read as its value. -/
theorem hexValue?_asciiByte {c : Char} (h : c.isHexDigit) :
    Text.hexValue? (asciiByte c) = some (hexDigitValue c) := by
  rw [hexValue?_eq_some_iff, asciiByte_toNat (toNat_lt_of_isHexDigit h)]
  rcases hexDigitValue_eq h with ⟨h₁, h₂, h₃⟩ | ⟨h₁, h₂, h₃⟩ | ⟨h₁, h₂, h₃⟩ <;> omega

/-- A byte read as a hex digit is the code of a hex digit character of that value. -/
theorem isHexDigit_of_hexValue? {b : UInt8} {x : Nat} (h : Text.hexValue? b = some x) :
    b.toNat < 128 ∧ (asciiChar b).isHexDigit ∧ hexDigitValue (asciiChar b) = x := by
  rw [hexValue?_eq_some_iff] at h
  have hlt : b.toNat < 128 := by omega
  have hc := asciiChar_toNat hlt
  have hhex : (asciiChar b).isHexDigit := by
    rw [isHexDigit_iff, hc]
    omega
  refine ⟨hlt, hhex, ?_⟩
  rcases hexDigitValue_eq hhex with ⟨h₁, h₂, h₃⟩ | ⟨h₁, h₂, h₃⟩ | ⟨h₁, h₂, h₃⟩ <;> omega

/-- The digits of radix ten are the ASCII decimal digits. -/
theorem digit_ten_iff {c : Char} : c.isHexDigit ∧ hexDigitValue c < 10 ↔ c.isDigit := by
  constructor
  · rintro ⟨hhex, hlt⟩
    rw [isDigit_iff]
    rcases hexDigitValue_eq hhex with ⟨h₁, h₂, h₃⟩ | ⟨h₁, h₂, h₃⟩ | ⟨h₁, h₂, h₃⟩ <;> omega
  · intro hd
    have hhex : c.isHexDigit := by
      rw [isHexDigit_iff]; rw [isDigit_iff] at hd; omega
    refine ⟨hhex, ?_⟩
    rw [isDigit_iff] at hd
    rcases hexDigitValue_eq hhex with ⟨h₁, h₂, h₃⟩ | ⟨h₁, h₂, h₃⟩ | ⟨h₁, h₂, h₃⟩ <;> omega

/-! ## Runs of digits -/

section Digits

variable (radix : Nat)

theorem foldl_digits_none (bs : List UInt8) :
    bs.foldl (fun acc d => acc.bind fun a => (Text.hexValue? d).bind fun v =>
      if v < radix then some (a * radix + v) else none) none = none := by
  induction bs with
  | nil => rfl
  | cons b bs ih => exact ih

/-- **Reading digits from an accumulator.** The run is read when every byte is a digit of the
radix, and then appends its value to the accumulator. -/
theorem foldl_digits_eq_some : ∀ (bs : List UInt8) (a v : Nat),
    bs.foldl (fun acc d => acc.bind fun a => (Text.hexValue? d).bind fun v =>
        if v < radix then some (a * radix + v) else none) (some a) = some v ↔
      (∀ b ∈ bs, b.toNat < 128 ∧ (asciiChar b).isHexDigit ∧ hexDigitValue (asciiChar b) < radix) ∧
        v = a * radix ^ bs.length + Nat.ofDigits radix ((bs.map asciiChar).map hexDigitValue).reverse
  | [], a, v => by
    simp only [List.foldl_nil, Option.some.injEq, List.not_mem_nil, false_imp_iff, implies_true,
      List.length_nil, pow_zero, mul_one, List.map_nil, List.reverse_nil, Nat.ofDigits_nil,
      add_zero, true_and, eq_comm]
  | b :: bs, a, v => by
    rw [List.foldl_cons]
    cases hb : Text.hexValue? b with
    | none =>
      -- a byte that is no digit stops the run
      simp only [Option.bind_some, Option.bind_none, foldl_digits_none, reduceCtorEq, false_iff]
      rintro ⟨hall, -⟩
      obtain ⟨hlt, hhex, -⟩ := hall b (by simp)
      rw [← asciiByte_asciiChar hlt, hexValue?_asciiByte hhex] at hb
      cases hb
    | some x =>
      obtain ⟨hlt, hhex, hx⟩ := isHexDigit_of_hexValue? hb
      simp only [Option.bind_some]
      by_cases hxr : x < radix
      · rw [if_pos hxr, foldl_digits_eq_some bs (a * radix + x) v]
        simp only [List.mem_cons, forall_eq_or_imp, List.length_cons, List.map_cons,
          Nat.ofDigits_reverse_cons, hx]
        rw [List.length_map, List.length_map, pow_succ]
        constructor
        · rintro ⟨hall, rfl⟩
          exact ⟨⟨⟨hlt, hhex, hxr⟩, hall⟩, by ring⟩
        · rintro ⟨⟨-, hall⟩, rfl⟩
          exact ⟨hall, by ring⟩
      · rw [if_neg hxr, foldl_digits_none]
        simp only [reduceCtorEq, false_iff, not_and]
        intro hall
        exact absurd (hx ▸ (hall b (by simp)).2.2) hxr

/-- **A run of digits is read as the numeral it writes**, when all its bytes are ASCII. -/
theorem digitsValue?_eq_some_iff {bs : List UInt8} {v : Nat} :
    digitsValue? radix bs = some v ↔ (∀ b ∈ bs, b.toNat < 128) ∧ Numeral radix (bs.map asciiChar) v := by
  unfold digitsValue?
  cases bs with
  | nil =>
    simp only [List.isEmpty_nil, if_true, reduceCtorEq, false_iff, List.map_nil, not_and]
    exact fun _ h => h.ne_nil rfl
  | cons b bs =>
    simp only [List.isEmpty_cons, Bool.false_eq_true, if_false]
    rw [foldl_digits_eq_some radix (b :: bs) 0 v]
    simp only [zero_mul, zero_add]
    constructor
    · rintro ⟨hall, rfl⟩
      refine ⟨fun c hc => (hall c hc).1, ⟨by simp, ?_, rfl⟩⟩
      simp only [List.mem_map]
      rintro c ⟨d, hd, rfl⟩
      exact (hall d hd).2
    · rintro ⟨hascii, ⟨-, hdig, hval⟩⟩
      refine ⟨fun d hd => ⟨hascii d hd, hdig _ (List.mem_map_of_mem hd)⟩, hval⟩

/-- A numeral written in ASCII characters is read as its value. -/
theorem digitsValue?_numeral {ds : List Char} {v : Nat} (h : Numeral radix ds v) :
    digitsValue? radix (ds.map asciiByte) = some v := by
  have hascii : ∀ c ∈ ds, c.toNat < 128 := fun c hc => toNat_lt_of_isHexDigit (h.digit c hc).1
  rw [digitsValue?_eq_some_iff]
  refine ⟨?_, ?_⟩
  · simp only [List.mem_map]
    rintro b ⟨c, hc, rfl⟩
    rw [asciiByte_toNat (hascii c hc)]
    exact hascii c hc
  · rw [List.map_map, List.map_congr_left (f := asciiChar ∘ asciiByte) (g := id)
      fun c hc => asciiChar_asciiByte (hascii c hc), List.map_id]
    exact h

end Digits

/-! ## Widths and the signed range -/

section Range

variable {bits : Nat}

theorem modulus_eq (hb : 1 ≤ bits) : modulus bits = 2 ^ bits := by
  rw [modulus, Nat.max_eq_left hb, Nat.pow_eq, Nat.cast_pow, Nat.cast_ofNat]

theorem modulus_half (hb : 1 ≤ bits) : modulus bits / 2 = 2 ^ (bits - 1) := by
  rw [modulus_eq hb]
  obtain ⟨k, rfl⟩ : ∃ k, bits = k + 1 := ⟨bits - 1, by omega⟩
  rw [pow_succ, Nat.add_sub_cancel, Int.mul_ediv_cancel _ (by decide)]

theorem two_pow_eq (hb : 1 ≤ bits) : (2 : Int) ^ bits = 2 * 2 ^ (bits - 1) := by
  obtain ⟨k, rfl⟩ : ∃ k, bits = k + 1 := ⟨bits - 1, by omega⟩
  rw [pow_succ, Nat.add_sub_cancel, mul_comm]

/-- The range check: a value is accepted when it lies in `[-2^(bits-1), 2^bits)`. -/
theorem range_check_iff (hb : 1 ≤ bits) {w : Int} :
    ¬(decide (w < -(modulus bits / 2)) || decide (modulus bits ≤ w)) = true ↔
      -2 ^ (bits - 1) ≤ w ∧ w < 2 ^ bits := by
  rw [modulus_half hb, modulus_eq hb]
  simp only [Bool.or_eq_true, decide_eq_true_eq, not_or, not_lt, not_le]

/-- **Normalizing lands in the signed range and keeps the low bits.** -/
theorem normalize_spec (hb : 1 ≤ bits) {v : Int} (lo : -2 ^ (bits - 1) ≤ v) (hi : v < 2 ^ bits) :
    -2 ^ (bits - 1) ≤ normalize bits v ∧ normalize bits v < 2 ^ (bits - 1) ∧
      normalize bits v ≡ v [ZMOD 2 ^ bits] := by
  have hm := two_pow_eq hb
  unfold normalize
  rw [modulus_half hb, modulus_eq hb]
  split_ifs with h
  · refine ⟨by omega, by omega, ?_⟩
    exact Int.modEq_iff_dvd.mpr ⟨1, by ring⟩
  · exact ⟨lo, by omega, Int.ModEq.refl v⟩

/-- A value already in the signed range is its own normal form. -/
theorem normalize_of_lt {v : Int} (hb : 1 ≤ bits) (h : v < 2 ^ (bits - 1)) : normalize bits v = v := by
  unfold normalize
  rw [modulus_half hb, if_neg (by omega)]

/-- Two values of the signed range with the same low bits are equal. -/
theorem eq_of_modEq {a b : Int} (hb : 1 ≤ bits) (ha : -2 ^ (bits - 1) ≤ a ∧ a < 2 ^ (bits - 1))
    (hb' : -2 ^ (bits - 1) ≤ b ∧ b < 2 ^ (bits - 1)) (h : a ≡ b [ZMOD 2 ^ bits]) : a = b := by
  have hm := two_pow_eq hb
  have hzero : b - a = 0 := Int.eq_zero_of_abs_lt_dvd (Int.ModEq.dvd h) (by rw [abs_lt]; omega)
  omega

end Range

/-! ## Reading a literal -/

theorem stripPrefix?_eq_some_iff {pre : String} {bytes rest : List UInt8} :
    stripPrefix? pre bytes = some rest ↔ bytes = pre.toUTF8.toList ++ rest := by
  unfold stripPrefix?
  dsimp only
  split_ifs with h
  · rw [List.isPrefixOf_iff_prefix] at h
    obtain ⟨t, rfl⟩ := h
    simp
  · simp only [false_iff]
    rintro rfl
    exact h (List.isPrefixOf_iff_prefix.mpr (List.prefix_append _ _))

theorem utf8_minus : "-".toUTF8.toList = [45] := by
  rw [utf8_eq_flatMap]
  decide

/-- The characters of a text read as a sign or prefix and a run of digits. -/
theorem toList_of_digits (pre : String) {text : String} {rest : List UInt8} {radix v : Nat}
    (h : text.toUTF8.toList = pre.toUTF8.toList ++ rest) (hpre : ∀ c ∈ pre.toList, c.toNat < 128)
    (hv : digitsValue? radix rest = some v) :
    text.toList = pre.toList ++ rest.map asciiChar ∧ Numeral radix (rest.map asciiChar) v := by
  obtain ⟨hascii, hnum⟩ := (digitsValue?_eq_some_iff radix).mp hv
  exact ⟨toList_of_utf8_append h hpre hascii, hnum⟩

/-- **What an accepted literal was.** The width is valid, the text is a literal whose value
passes the range check, and the constant is that value normalized. -/
theorem parse_sound {bits : Nat} {text : String} {i : IntConst} (h : parse bits text = .ok i) :
    1 ≤ bits ∧ bits ≤ maxIntBits ∧ ∃ v, Literal bits text.toList v ∧
      (-2 ^ (bits - 1) ≤ v ∧ v < 2 ^ bits) ∧ i = ⟨bits, normalize bits v⟩ := by
  unfold parse at h
  simp only [bind, Except.bind, pure, Except.pure, throw, throwThe, MonadExceptOf.throw] at h
  split at h
  · cases h
  rename_i hw
  have hb : 1 ≤ bits ∧ bits ≤ maxIntBits := by
    simp only [Bool.or_eq_true, decide_eq_true_eq, not_or, not_lt] at hw
    omega
  refine ⟨hb.1, hb.2, ?_⟩
  split at h
  · -- `true` or `false`, at width one only
    rename_i htf
    split at h
    · rename_i h1
      simp only [Bool.or_eq_true, decide_eq_true_eq] at htf
      -- the value is `1` for `true` and `0` for `false`
      obtain ⟨b, w, hbool, hw, hv⟩ : ∃ (b : Bool) (w : Int), text = toString b ∧
          (if b then 1 else 0) = w ∧ (if text = "true" then (1 : Int) else 0) = w := by
        rcases htf with ht | ht
        · exact ⟨true, 1, ht, rfl, by rw [if_pos ht]⟩
        · exact ⟨false, 0, ht, rfl, by rw [if_neg (by rw [ht]; decide)]⟩
      rw [hv] at h
      split at h
      · cases h
      rename_i hr
      cases h
      exact ⟨w, by rw [hbool, ← hw]; exact Literal.bool b h1, (range_check_iff hb.1).mp hr, rfl⟩
    · cases h
  split at h
  · -- `u0x` and hex digits
    rename_i hex hpre
    split at h
    · rename_i v hv
      split at h
      · cases h
      rename_i hr
      cases h
      obtain ⟨htext, hnum⟩ := toList_of_digits _ (stripPrefix?_eq_some_iff.mp hpre) (by simp) hv
      exact ⟨v, htext ▸ Literal.unsignedHex hnum, (range_check_iff hb.1).mp hr, rfl⟩
    · cases h
  split at h
  · -- `s0x` and hex digits, read as two's complement
    rename_i hex _ hpre
    split at h
    · rename_i v hv
      split at h
      · cases h
      rename_i hfit
      split at h
      · cases h
      rename_i hr
      cases h
      obtain ⟨htext, hnum⟩ := toList_of_digits _ (stripPrefix?_eq_some_iff.mp hpre) (by simp) hv
      have hrange : -2 ^ (bits - 1) ≤ (v : Int) ∧ (v : Int) < 2 ^ bits := by
        rw [modulus_eq hb.1] at hfit
        exact ⟨le_trans (by simp) (Int.natCast_nonneg v), not_le.mp hfit⟩
      obtain ⟨-, hlt, -⟩ := normalize_spec hb.1 hrange.1 hrange.2
      refine ⟨v, htext ▸ Literal.signedHex hnum, hrange, ?_⟩
      rw [normalize_of_lt hb.1 hlt]
    · cases h
  · -- decimal digits after an optional `-`
    generalize hbytes : text.toUTF8.toList = bytes at h
    cases bytes with
    | nil => simp [digitsValue?] at h
    | cons b rest =>
      by_cases hneg : b = 45
      · simp only [hneg, BEq.rfl, if_true] at h
        split at h
        · rename_i v hv
          split at h
          · cases h
          rename_i hr
          cases h
          obtain ⟨htext, hnum⟩ := toList_of_digits "-" (by rw [hbytes, hneg, utf8_minus]; rfl)
            (by simp) hv
          exact ⟨-v, htext ▸ Literal.negative hnum, (range_check_iff hb.1).mp hr, rfl⟩
        · cases h
      · simp only [beq_iff_eq, hneg, if_false, Bool.false_eq_true] at h
        split at h
        · rename_i v hv
          split at h
          · cases h
          rename_i hr
          cases h
          obtain ⟨htext, hnum⟩ := toList_of_digits "" (by rw [hbytes]; simp) (by simp) hv
          exact ⟨v, htext ▸ Literal.decimal hnum, (range_check_iff hb.1).mp hr, rfl⟩
        · cases h

theorem utf8_u0x : "u0x".toUTF8.toList = [117, 48, 120] := by
  rw [utf8_eq_flatMap]
  decide

theorem utf8_s0x : "s0x".toUTF8.toList = [115, 48, 120] := by
  rw [utf8_eq_flatMap]
  decide

theorem stripPrefix?_of_head_ne {pre : String} {p b : UInt8} {ps rest : List UInt8}
    (hp : pre.toUTF8.toList = p :: ps) (hne : b ≠ p) : stripPrefix? pre (b :: rest) = none := by
  cases h : stripPrefix? pre (b :: rest) with
  | none => rfl
  | some r =>
    rw [stripPrefix?_eq_some_iff, hp, List.cons_append, List.cons.injEq] at h
    exact absurd h.1 hne

theorem Numeral.ascii {radix v : Nat} {ds : List Char} (h : Numeral radix ds v) :
    ∀ c ∈ ds, c.toNat < 128 := fun c hc => toNat_lt_of_isHexDigit (h.digit c hc).1

/-- The first byte of a decimal numeral is a digit, not `-`, `s` or `u`. -/
theorem Numeral.head_byte {v : Nat} {ds : List Char} (h : Numeral 10 ds v) :
    ∃ b rest, ds.map asciiByte = b :: rest ∧ 48 ≤ b.toNat ∧ b.toNat ≤ 57 := by
  obtain ⟨c, cs, rfl⟩ := List.exists_cons_of_ne_nil h.ne_nil
  have hd := isDigit_iff.mp (digit_ten_iff.mp (h.digit c (by simp)))
  refine ⟨asciiByte c, cs.map asciiByte, rfl, ?_⟩
  rw [asciiByte_toNat (by omega)]
  exact hd

/-- **Every literal in range is accepted**, as its value normalized. -/
theorem parse_complete {bits : Nat} {text : String} {v : Int} (h1 : 1 ≤ bits)
    (h2 : bits ≤ maxIntBits) (hl : Literal bits text.toList v)
    (hr : -2 ^ (bits - 1) ≤ v ∧ v < 2 ^ bits) : parse bits text = .ok ⟨bits, normalize bits v⟩ := by
  have hw : ¬(decide (bits = 0) || decide (maxIntBits < bits)) = true := by
    simp only [Bool.or_eq_true, decide_eq_true_eq, not_or, not_lt]
    omega
  have hrange := (range_check_iff h1).mpr hr
  -- the text is ASCII, so its bytes are the codes of its characters
  have hbytes : ∀ cs, text.toList = cs → (∀ c ∈ cs, c.toNat < 128) →
      text.toUTF8.toList = cs.map asciiByte := by
    intro cs hcs hascii
    rw [← String.ofList_toList (s := text), hcs, utf8_ofList_ascii hascii]
  generalize hcs : text.toList = cs at hl
  unfold parse
  simp only [bind, Except.bind, pure, Except.pure, throw, throwThe, MonadExceptOf.throw]
  rw [if_neg hw]
  cases hl with
  | bool b hb =>
    subst hb
    have ht : text = toString b := by
      rw [← String.ofList_toList (s := text), hcs, String.ofList_toList]
    cases b
    · replace ht : text = "false" := ht
      subst ht
      simp [modulus]
    · replace ht : text = "true" := ht
      subst ht
      simp [modulus]
  | @unsignedHex ds w hnum =>
    have hb := hbytes _ hcs (by
      simp only [List.mem_cons, forall_eq_or_imp]
      exact ⟨by simp, by simp, by simp, hnum.ascii⟩)
    have htf : ¬(decide (text = "true") || decide (text = "false")) = true := by
      simp only [Bool.or_eq_true, decide_eq_true_eq, not_or]
      constructor <;> (rintro rfl; simp at hcs)
    have hs : stripPrefix? "u0x" text.toUTF8.toList = some (ds.map asciiByte) :=
      stripPrefix?_eq_some_iff.mpr (by rw [hb, utf8_u0x]; rfl)
    rw [if_neg htf, hs]
    simp only [digitsValue?_numeral 16 hnum]
    rw [if_neg hrange]
  | @signedHex ds w hnum =>
    have hb := hbytes _ hcs (by
      simp only [List.mem_cons, forall_eq_or_imp]
      exact ⟨by simp, by simp, by simp, hnum.ascii⟩)
    have htf : ¬(decide (text = "true") || decide (text = "false")) = true := by
      simp only [Bool.or_eq_true, decide_eq_true_eq, not_or]
      constructor <;> (rintro rfl; simp at hcs)
    have hu : stripPrefix? "u0x" text.toUTF8.toList = none := by
      rw [hb]
      exact stripPrefix?_of_head_ne utf8_u0x (by decide)
    have hs : stripPrefix? "s0x" text.toUTF8.toList = some (ds.map asciiByte) :=
      stripPrefix?_eq_some_iff.mpr (by rw [hb, utf8_s0x]; rfl)
    -- the unsigned value fits the width, and its normal form is already in the signed range
    have hfit : ¬modulus bits ≤ (w : Int) := by
      rw [modulus_eq h1]
      exact not_le.mpr hr.2
    obtain ⟨lo, hi, -⟩ := normalize_spec h1 hr.1 hr.2
    have hrange' : ¬(decide (normalize bits w < -(modulus bits / 2)) ||
        decide (modulus bits ≤ normalize bits w)) = true := by
      rw [range_check_iff h1]
      exact ⟨lo, lt_of_lt_of_le hi (by rw [two_pow_eq h1]; omega)⟩
    rw [if_neg htf, hu, hs]
    simp only [digitsValue?_numeral 16 hnum]
    rw [if_neg hfit, if_neg hrange', normalize_of_lt h1 hi]
  | @decimal ds w hnum =>
    have hb := hbytes _ hcs hnum.ascii
    obtain ⟨d, rest, hd, hd₁, hd₂⟩ := hnum.head_byte
    rw [hd] at hb
    have htf : ¬(decide (text = "true") || decide (text = "false")) = true := by
      have hdigits : ∀ c ∈ cs, c.isDigit := fun c hc => digit_ten_iff.mp (hnum.digit c hc)
      simp only [Bool.or_eq_true, decide_eq_true_eq, not_or]
      constructor <;> (rintro rfl; rw [← hcs] at hdigits; simp at hdigits)
    have hu : stripPrefix? "u0x" text.toUTF8.toList = none := by
      rw [hb]
      exact stripPrefix?_of_head_ne utf8_u0x (fun h => by rw [h] at hd₂; simp at hd₂)
    have hs : stripPrefix? "s0x" text.toUTF8.toList = none := by
      rw [hb]
      exact stripPrefix?_of_head_ne utf8_s0x (fun h => by rw [h] at hd₂; simp at hd₂)
    have hsign : (d == 45) = false := by
      rw [beq_eq_false_iff_ne]
      rintro rfl
      simp at hd₁
    rw [if_neg htf, hu, hs]
    simp only [hb, hsign, Bool.false_eq_true, if_false]
    rw [← hd, digitsValue?_numeral 10 hnum]
    dsimp only
    rw [if_neg hrange]
  | @negative ds w hnum =>
    have hb := hbytes _ hcs (by
      simp only [List.mem_cons, forall_eq_or_imp]
      exact ⟨by simp, hnum.ascii⟩)
    have htf : ¬(decide (text = "true") || decide (text = "false")) = true := by
      simp only [Bool.or_eq_true, decide_eq_true_eq, not_or]
      constructor <;> (rintro rfl; simp at hcs)
    have hu : stripPrefix? "u0x" text.toUTF8.toList = none := by
      rw [hb]
      exact stripPrefix?_of_head_ne utf8_u0x (by decide)
    have hs : stripPrefix? "s0x" text.toUTF8.toList = none := by
      rw [hb]
      exact stripPrefix?_of_head_ne utf8_s0x (by decide)
    have hsign : (asciiByte '-' == 45) = true := by decide
    rw [if_neg htf, hu, hs]
    simp only [hb, List.map_cons, hsign, if_true]
    rw [digitsValue?_numeral 10 hnum]
    dsimp only
    rw [if_neg hrange]

/-- **A literal is accepted exactly when it is a literal of the width in range**, and then the
constant has the width and the value of the signed range with the same low bits. -/
theorem parse_eq_ok_iff {bits : Nat} {text : String} {i : IntConst} :
    parse bits text = .ok i ↔ 1 ≤ bits ∧ bits ≤ maxIntBits ∧ ∃ v, Literal bits text.toList v ∧
      -2 ^ (bits - 1) ≤ v ∧ v < 2 ^ bits ∧ i.bits = bits ∧
      -2 ^ (bits - 1) ≤ i.value ∧ i.value < 2 ^ (bits - 1) ∧ i.value ≡ v [ZMOD 2 ^ bits] := by
  constructor
  · intro h
    obtain ⟨h1, h2, v, hl, ⟨lo, hi⟩, rfl⟩ := parse_sound h
    exact ⟨h1, h2, v, hl, lo, hi, rfl, normalize_spec h1 lo hi⟩
  · rintro ⟨h1, h2, v, hl, lo, hi, hbits, hlo, hhi, hmod⟩
    obtain ⟨nlo, nhi, nmod⟩ := normalize_spec h1 lo hi
    have hvalue : i.value = normalize bits v :=
      eq_of_modEq h1 ⟨hlo, hhi⟩ ⟨nlo, nhi⟩ (hmod.trans nmod.symm)
    rw [parse_complete h1 h2 hl ⟨lo, hi⟩]
    cases i
    simp only at hbits hvalue
    rw [hbits, hvalue]

/-- **Every refusal is a malformed integer literal** naming the text. -/
theorem parse_error {bits : Nat} {text : String} {e : IrError} (h : parse bits text = .error e) :
    ∃ reason, e = .malformedLiteral .integer text reason := by
  unfold parse at h
  simp only [bind, Except.bind, pure, Except.pure, throw, throwThe, MonadExceptOf.throw] at h
  -- every branch either builds the constant or throws `bad` with its reason
  repeat' split at h
  all_goals cases h
  all_goals exact ⟨_, rfl⟩

/-! ## The text of a constant -/

/-- The value of decimal digits read one after another, as a numeral. -/
theorem ofDigitChars_eq {l : List Char} (hl : ∀ c ∈ l, c.isDigit) (a : Nat) :
    Nat.ofDigitChars 10 l a = a * 10 ^ l.length + Nat.ofDigits 10 (l.map hexDigitValue).reverse := by
  induction l generalizing a with
  | nil => simp
  | cons c l ih =>
    have hc := hl c (by simp)
    have hval : hexDigitValue c = c.toNat - '0'.toNat := by rw [hexDigitValue, if_pos hc]
    rw [Nat.ofDigitChars_cons, ih (fun d hd => hl d (List.mem_cons_of_mem c hd)), List.map_cons,
      Nat.ofDigits_reverse_cons, List.length_map, List.length_cons, hval, pow_succ]
    ring

/-- The decimal text of a number is a numeral of it. -/
theorem numeral_toDigits (n : Nat) : Numeral 10 (Nat.toDigits 10 n) n := by
  have hdig : ∀ c ∈ Nat.toDigits 10 n, c.isDigit := fun c hc =>
    Nat.isDigit_of_mem_toDigits (by decide) (by decide) hc
  refine ⟨Nat.toDigits_ne_nil, fun c hc => digit_ten_iff.mpr (hdig c hc), ?_⟩
  have h := ofDigitChars_eq hdig 0
  rw [Nat.ofDigitChars_ten_toDigits, zero_mul, zero_add] at h
  exact h

/-- **The text of a constant is a literal of its width** whose value has the constant's bits. -/
theorem render_literal {i : IntConst} (hb : 1 ≤ i.bits) (lo : -2 ^ (i.bits - 1) ≤ i.value)
    (hi : i.value < 2 ^ (i.bits - 1)) : ∃ w, Literal i.bits i.render.toList w ∧
      (-2 ^ (i.bits - 1) ≤ w ∧ w < 2 ^ i.bits) ∧ w ≡ i.value [ZMOD 2 ^ i.bits] := by
  have hm := two_pow_eq hb
  unfold render
  split_ifs with h1 h0
  · -- width one: `false` is `0`
    refine ⟨0, Literal.bool false h1, ⟨by omega, by omega⟩, by rw [h0]⟩
  · -- width one: `true` is `1`, the same bit as `-1`
    have hv : i.value = -1 := by rw [h1] at lo hi; simp at lo hi; omega
    refine ⟨1, Literal.bool true h1, ⟨by omega, by omega⟩, ?_⟩
    rw [hv, h1]
    decide
  · -- wider: the decimal text, with a `-` when negative
    rw [Int.toString_eq_repr, Int.repr_eq_if]
    split_ifs with hpos
    · refine ⟨i.value, ?_, ⟨by omega, by omega⟩, Int.ModEq.refl _⟩
      have hw : ((i.value.toNat : Nat) : Int) = i.value := Int.toNat_of_nonneg hpos
      rw [Nat.toList_repr]
      exact hw ▸ Literal.decimal (numeral_toDigits _)
    · refine ⟨i.value, ?_, ⟨by omega, by omega⟩, Int.ModEq.refl _⟩
      have hlit := @Literal.negative i.bits _ _ (numeral_toDigits (-i.value).toNat)
      rw [show -(((-i.value).toNat : Nat) : Int) = i.value by omega] at hlit
      rw [String.toList_append, Nat.toList_repr]
      exact hlit

/-- **Reading the text of a constant at its width gives the constant back.** -/
theorem parse_render {bits : Nat} {text : String} {i : IntConst} (h : parse bits text = .ok i) :
    parse bits i.render = .ok i := by
  obtain ⟨h1, h2, v, -, ⟨lo, hi⟩, rfl⟩ := parse_sound h
  obtain ⟨nlo, nhi, -⟩ := normalize_spec h1 lo hi
  obtain ⟨w, hw, ⟨wlo, whi⟩, hmod⟩ := render_literal (i := ⟨bits, normalize bits v⟩) h1 nlo nhi
  obtain ⟨wnlo, wnhi, wnmod⟩ := normalize_spec h1 wlo whi
  rw [parse_complete h1 h2 hw ⟨wlo, whi⟩,
    eq_of_modEq h1 ⟨wnlo, wnhi⟩ ⟨nlo, nhi⟩ (wnmod.trans hmod)]

/-! ## Integer literals -/

/-- **Integer literals.** Reading a literal at a width accepts exactly the literals of that width
whose value is in range, giving the constant of the signed range with the value's low bits;
every other text is refused as a malformed integer literal; and the text of an accepted
constant reads back to it. -/
theorem parse_reads_literals (bits : Nat) (text : String) :
    (∀ i, parse bits text = .ok i ↔ 1 ≤ bits ∧ bits ≤ maxIntBits ∧
      ∃ v, Literal bits text.toList v ∧ -2 ^ (bits - 1) ≤ v ∧ v < 2 ^ bits ∧ i.bits = bits ∧
        -2 ^ (bits - 1) ≤ i.value ∧ i.value < 2 ^ (bits - 1) ∧ i.value ≡ v [ZMOD 2 ^ bits]) ∧
    ((∃ i, parse bits text = .ok i) ∨
      ∃ reason, parse bits text = .error (.malformedLiteral .integer text reason)) ∧
    ∀ i, parse bits text = .ok i → parse bits i.render = .ok i := by
  refine ⟨fun _ => parse_eq_ok_iff, ?_, fun _ h => parse_render h⟩
  cases h : parse bits text with
  | ok i => exact .inl ⟨i, rfl⟩
  | error e =>
    obtain ⟨reason, rfl⟩ := parse_error h
    exact .inr ⟨reason, rfl⟩

end LlvmAsm.IntConst
