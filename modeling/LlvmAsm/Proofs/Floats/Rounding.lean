import Mathlib
import LlvmAsm.Decimal.Shortest

/-!
# `Proofs.Floats.Rounding` — rounding a ratio to a double

`roundRatio` rounds a ratio of naturals to the nearest pattern of a binary format: it finds the
binary exponent of the ratio (`floorLog2Ratio`), scales the ratio to the significand's last place
and rounds the result to a natural, a tie going to the even one (`roundHalfEven`). This module
reads each step as a statement about the rational value of the ratio, and shows that a ratio
inside the rounding interval of a finite double (the reals halfway to its neighbours, the ends
included when its significand is even) rounds back to that double (`roundRatio_of_holds`).
-/

namespace LlvmAsm.Binary

/-! ## Ratios and powers of two -/

theorem scaleByTwo_snd_pos (num : Nat) (e : Int) : 0 < (scaleByTwo num e).2 := by
  unfold scaleByTwo
  split
  · exact Nat.one_pos
  · exact Nat.two_pow_pos _

/-- `scaleByTwo num e` is `num · 2^e`. -/
theorem scaleByTwo_ratio (num : Nat) (e : Int) :
    ((scaleByTwo num e).1 : ℚ) / (scaleByTwo num e).2 = num * 2 ^ e := by
  unfold scaleByTwo
  split
  · rename_i he
    rw [show Nat.pow 2 e.toNat = 2 ^ e.toNat from rfl, Nat.cast_one, div_one, Nat.cast_mul,
      Nat.cast_pow, Nat.cast_ofNat, ← zpow_natCast, Int.toNat_of_nonneg he]
  · rename_i he
    rw [show Nat.pow 2 (-e).toNat = 2 ^ (-e).toNat from rfl, Nat.cast_pow, Nat.cast_ofNat,
      ← zpow_natCast, Int.toNat_of_nonneg (by omega), zpow_neg, div_eq_mul_inv, inv_inv]

/-- `scaleByTwo x e` of a positive `x` is `x · 2^e` as a ratio of two positive naturals. -/
theorem scaleByTwo_pos {x : Nat} (hx : 0 < x) {e : Int} {a b : Nat} (hab : scaleByTwo x e = (a, b)) :
    0 < a ∧ 0 < b ∧ (a : ℚ) / b = x * 2 ^ e := by
  have hratio := scaleByTwo_ratio x e
  have hb := scaleByTwo_snd_pos x e
  rw [hab] at hratio hb
  dsimp only at hratio hb
  have hbq : (0 : ℚ) < b := by exact_mod_cast hb
  have hxq : (0 : ℚ) < x := by exact_mod_cast hx
  have hpos : (0 : ℚ) < a / b := by rw [hratio]; exact mul_pos hxq (zpow_pos two_pos e)
  exact ⟨by exact_mod_cast (div_pos_iff_of_pos_right hbq).mp hpos, hb, hratio⟩

/-- Comparing a ratio with a power of two. -/
theorem ratioLtPow_iff {num den : Nat} (hden : 0 < den) (e : Int) :
    ratioLtPow num den e = true ↔ (num : ℚ) / den < 2 ^ e := by
  unfold ratioLtPow
  rcases hab : scaleByTwo 1 e with ⟨a, b⟩
  obtain ⟨-, hb, hpow⟩ := scaleByTwo_pos Nat.one_pos hab
  dsimp only
  rw [Nat.cast_one, one_mul] at hpow
  rw [decide_eq_true_iff, ← hpow, div_lt_div_iff₀ (by exact_mod_cast hden) (by exact_mod_cast hb)]
  exact_mod_cast Iff.rfl

/-- `2^k` of a natural exponent, as a rational. -/
theorem two_pow_natCast (k : Nat) : ((Nat.pow 2 k : Nat) : ℚ) = (2 : ℚ) ^ (k : Int) := by
  rw [show Nat.pow 2 k = 2 ^ k from rfl, Nat.cast_pow, Nat.cast_ofNat, zpow_natCast]

/-- **The binary exponent of a ratio**: `2^E ≤ num / den < 2^(E+1)`. -/
theorem floorLog2Ratio_spec {num den : Nat} (hnum : 0 < num) (hden : 0 < den) :
    (2 : ℚ) ^ floorLog2Ratio num den ≤ num / den ∧
      (num : ℚ) / den < 2 ^ (floorLog2Ratio num den + 1) := by
  have hdenq : (0 : ℚ) < den := by exact_mod_cast hden
  -- the logarithms of numerator and denominator bound the ratio within a factor of four
  have hn₁ : (2 : ℚ) ^ (num.log2 : Int) ≤ num := by
    rw [← two_pow_natCast]; exact_mod_cast Nat.log2_self_le hnum.ne'
  have hn₂ : (num : ℚ) < 2 ^ ((num.log2 : Int) + 1) := by
    rw [show ((num.log2 : Int) + 1) = ((num.log2 + 1 : Nat) : Int) by push_cast; ring,
      ← two_pow_natCast]
    exact_mod_cast Nat.lt_log2_self
  have hd₁ : (2 : ℚ) ^ (den.log2 : Int) ≤ den := by
    rw [← two_pow_natCast]; exact_mod_cast Nat.log2_self_le hden.ne'
  have hd₂ : (den : ℚ) < 2 ^ ((den.log2 : Int) + 1) := by
    rw [show ((den.log2 : Int) + 1) = ((den.log2 + 1 : Nat) : Int) by push_cast; ring,
      ← two_pow_natCast]
    exact_mod_cast Nat.lt_log2_self
  set e : Int := (num.log2 : Int) - den.log2 with he
  have hlow : (2 : ℚ) ^ (e - 1) < num / den := by
    rw [lt_div_iff₀ hdenq]
    calc (2 : ℚ) ^ (e - 1) * den < 2 ^ (e - 1) * 2 ^ ((den.log2 : Int) + 1) := by gcongr
      _ = 2 ^ (num.log2 : Int) := by rw [← zpow_add₀ two_ne_zero]; congr 1; omega
      _ ≤ num := hn₁
  have hhigh : (num : ℚ) / den < 2 ^ (e + 1) := by
    rw [div_lt_iff₀ hdenq]
    calc (num : ℚ) < 2 ^ ((num.log2 : Int) + 1) := hn₂
      _ = 2 ^ (e + 1) * 2 ^ (den.log2 : Int) := by rw [← zpow_add₀ two_ne_zero]; congr 1; omega
      _ ≤ 2 ^ (e + 1) * den := by gcongr
  unfold floorLog2Ratio
  dsimp only
  rw [← he]
  split
  · rename_i hlt
    rw [ratioLtPow_iff hden] at hlt
    exact ⟨hlow.le, by rwa [sub_add_cancel]⟩
  · rename_i hge
    rw [ratioLtPow_iff hden] at hge
    exact ⟨not_lt.mp hge, hhigh⟩

/-- The binary exponent is the one power of two the ratio lies between. -/
theorem floorLog2Ratio_eq {num den : Nat} (hnum : 0 < num) (hden : 0 < den) {k : Int}
    (hlo : (2 : ℚ) ^ k ≤ num / den) (hhi : (num : ℚ) / den < 2 ^ (k + 1)) :
    floorLog2Ratio num den = k := by
  obtain ⟨hlo', hhi'⟩ := floorLog2Ratio_spec hnum hden
  have h₁ : floorLog2Ratio num den < k + 1 :=
    (zpow_lt_zpow_iff_right₀ one_lt_two).mp (lt_of_le_of_lt hlo' hhi)
  have h₂ : k < floorLog2Ratio num den + 1 :=
    (zpow_lt_zpow_iff_right₀ one_lt_two).mp (lt_of_le_of_lt hlo hhi')
  omega

/-! ## Rounding to a natural -/

/-- **`x` rounds to the natural `r`**: it lies within a half of `r`, and it lies exactly halfway
only when `r` is the even one of the two naturals around it. -/
structure RoundsTo (x : ℚ) (r : Nat) : Prop where
  low : (r : ℚ) - 1 / 2 ≤ x
  high : x ≤ r + 1 / 2
  tie_low : x = r - 1 / 2 → Even r
  tie_high : x = r + 1 / 2 → Even r

namespace RoundsTo

variable {x : ℚ} {r r' : Nat}

/-- Two neighbours cannot both be what a value rounds to: they would share a tie. -/
theorem not_succ (h : RoundsTo x r) (h' : RoundsTo x (r + 1)) : False := by
  have hcast : ((r + 1 : Nat) : ℚ) = r + 1 := by push_cast; ring
  have hx : x = r + 1 / 2 := by
    have := h'.low
    rw [hcast] at this
    linarith [h.high]
  have heven := h.tie_high hx
  have heven' := h'.tie_low (by rw [hcast, hx]; ring)
  exact (Nat.even_add_one.mp heven') heven

/-- **What a value rounds to is unique.** -/
theorem unique (h : RoundsTo x r) (h' : RoundsTo x r') : r = r' := by
  -- two naturals within a half of `x` are at most one apart
  have hclose : (r : ℚ) ≤ r' + 1 ∧ (r' : ℚ) ≤ r + 1 :=
    ⟨by linarith [h.low, h'.high], by linarith [h'.low, h.high]⟩
  have h₁ : r ≤ r' + 1 := by exact_mod_cast hclose.1
  have h₂ : r' ≤ r + 1 := by exact_mod_cast hclose.2
  rcases Nat.lt_trichotomy r r' with hlt | heq | hgt
  · obtain rfl : r' = r + 1 := by omega
    exact (h.not_succ h').elim
  · exact heq
  · obtain rfl : r = r' + 1 := by omega
    exact (h'.not_succ h).elim

end RoundsTo

/-- **Rounding half to even** rounds `n / a` to the nearest natural, a tie going to the even one. -/
theorem roundHalfEven_roundsTo {n a : Nat} (ha : 0 < a) :
    RoundsTo ((n : ℚ) / a) (roundHalfEven n a) := by
  have haq : (0 : ℚ) < a := by exact_mod_cast ha
  have hn : (n : ℚ) = a * (n / a : Nat) + (n % a : Nat) := by
    exact_mod_cast (Nat.div_add_mod n a).symm
  have hrem : n % a < a := Nat.mod_lt n ha
  -- the value is the quotient plus the remainder's share `t` of `a`, with `0 ≤ t < 1`
  set m := n / a
  set rem := n % a
  set t : ℚ := (rem : ℚ) / a with ht
  have hx : (n : ℚ) / a = m + t := by rw [ht, hn]; field_simp
  have ht0 : 0 ≤ t := by positivity
  -- comparing the remainder with half of `a` compares `t` with a half
  have h_gt : a < 2 * rem → 1 / 2 < t := fun h => by
    have : (a : ℚ) < 2 * rem := by exact_mod_cast h
    rw [ht, lt_div_iff₀ haq]; linarith
  have h_eq : 2 * rem = a → t = 1 / 2 := fun h => by
    have : (2 * rem : ℚ) = a := by exact_mod_cast h
    rw [ht, div_eq_iff haq.ne']; linarith
  have h_lt : 2 * rem < a → t < 1 / 2 := fun h => by
    have : (2 * rem : ℚ) < a := by exact_mod_cast h
    rw [ht, div_lt_iff₀ haq]; linarith
  rw [hx]
  unfold roundHalfEven
  dsimp only
  rw [show n / a = m from rfl, show n % a = rem from rfl]
  have hcast : ((m + 1 : Nat) : ℚ) = m + 1 := by push_cast; ring
  split
  · rename_i hc
    simp only [Bool.or_eq_true, decide_eq_true_eq, Bool.and_eq_true, beq_iff_eq] at hc
    rcases hc with hgt | ⟨heq, hodd⟩
    · -- past the half: round up
      have := h_gt hgt
      have ht1 : t < 1 := (div_lt_one haq).mpr (by exact_mod_cast hrem)
      exact ⟨by rw [hcast]; linarith, by rw [hcast]; linarith,
        fun h => by rw [hcast] at h; exfalso; linarith,
        fun h => by rw [hcast] at h; exfalso; linarith⟩
    · -- a tie with an odd quotient: up to the even neighbour
      have := h_eq heq
      exact ⟨by rw [hcast]; linarith, by rw [hcast]; linarith,
        fun _ => Nat.even_add_one.mpr (Nat.not_even_iff_odd.mpr (Nat.odd_iff.mpr hodd)),
        fun h => by rw [hcast] at h; exfalso; linarith⟩
  · rename_i hc
    simp only [Bool.or_eq_true, decide_eq_true_eq, Bool.and_eq_true, beq_iff_eq, not_or,
      not_and, not_lt] at hc
    obtain ⟨hle, hodd⟩ := hc
    -- at most the half: round down, a tie only with an even quotient
    have hhalf : t ≤ 1 / 2 := by
      rcases Nat.lt_or_eq_of_le hle with h | h
      · exact (h_lt h).le
      · exact (h_eq h).le
    refine ⟨by linarith, by linarith, fun _ => by exfalso; linarith, fun he => ?_⟩
    have h2 : 2 * rem = a := by
      by_contra hne
      have := h_lt (lt_of_le_of_ne hle hne)
      linarith
    exact Nat.even_iff.mpr (by have := hodd h2; omega)

/-- The binary exponent of `y · 2^q`, for `y` between `2^j` and `2^(j+1)`. -/
theorem floorLog2Ratio_of_scaled {num den : Nat} (hnum : 0 < num) (hden : 0 < den) {y : ℚ}
    {q j : Int} (hx : (num : ℚ) / den = y * 2 ^ q) (hlo : (2 : ℚ) ^ j ≤ y) (hhi : y < 2 ^ (j + 1)) :
    floorLog2Ratio num den = j + q := by
  have hq : (0 : ℚ) < 2 ^ q := zpow_pos two_pos q
  apply floorLog2Ratio_eq hnum hden
  · rw [hx, zpow_add₀ two_ne_zero]
    exact mul_le_mul_of_nonneg_right hlo hq.le
  · rw [hx, show j + q + 1 = (j + 1) + q by ring, zpow_add₀ two_ne_zero]
    exact mul_lt_mul_of_pos_right hhi hq

/-- A ratio below `2^k` has a binary exponent below `k`. -/
theorem floorLog2Ratio_lt {num den : Nat} (hnum : 0 < num) (hden : 0 < den) {k : Int}
    (h : (num : ℚ) / den < 2 ^ k) : floorLog2Ratio num den < k :=
  (zpow_lt_zpow_iff_right₀ one_lt_two).mp (lt_of_le_of_lt (floorLog2Ratio_spec hnum hden).1 h)

/-! ## Double patterns -/

namespace Format

@[simp] theorem double_fractionBits : double.fractionBits = 52 := rfl
@[simp] theorem double_exponentBits : double.exponentBits = 11 := rfl
@[simp] theorem double_precision : double.precision = 53 := rfl
@[simp] theorem double_width : double.width = 64 := rfl
@[simp] theorem double_bias : double.bias = 1023 := rfl
@[simp] theorem double_topField : double.topField = 2047 := rfl
@[simp] theorem double_minQuantum : double.minQuantum = -1074 := by decide

end Format

/-! The powers of two that bound a double's fields, as numerals `omega` can use. -/

theorem two_pow_11 : Nat.pow 2 11 = 2048 := by decide
theorem two_pow_52 : Nat.pow 2 52 = 4503599627370496 := by decide
theorem two_pow_53 : Nat.pow 2 53 = 9007199254740992 := by decide
theorem two_pow_63 : Nat.pow 2 63 = 9223372036854775808 := by decide
theorem two_pow_64 : Nat.pow 2 64 = 18446744073709551616 := by decide

/-- **A finite double pattern** is the encoding of its value: a subnormal significand below `2^52`
at the least exponent, or a normal one in `[2^52, 2^53)` at an exponent from `-1074` to `971`. It
opens a binade exactly when its significand is `2^52`. -/
theorem decode_double_finite {d : Nat} {neg : Bool} {m : Nat} {q : Int} (hd : d < Nat.pow 2 64)
    (h : decode .double d = .finite neg m q) :
    encode .double neg m q = d ∧
      (m < Nat.pow 2 52 ∧ q = -1074 ∨ Nat.pow 2 52 ≤ m ∧ m < Nat.pow 2 53 ∧ -1074 ≤ q ∧ q ≤ 971) ∧
      (isBinadeStart .double d = true ↔ m = Nat.pow 2 52) := by
  rw [two_pow_64] at hd
  -- the sign bit, the exponent field and the fraction field make up the pattern
  have hsplit : d = d / 9223372036854775808 % 2 * 9223372036854775808 +
      d / 4503599627370496 % 2048 * 4503599627370496 + d % 4503599627370496 := by omega
  have hsign : (if (d / 9223372036854775808 % 2 == 1) = true then 9223372036854775808 else 0) =
      d / 9223372036854775808 % 2 * 9223372036854775808 := by
    split <;> rename_i hs <;> simp only [beq_iff_eq] at hs <;> omega
  simp only [decode, isBinadeStart, Format.double_fractionBits, Format.double_exponentBits,
    Format.double_width, Format.double_topField, Format.double_bias, Format.double_minQuantum,
    two_pow_52, two_pow_11, two_pow_63, Nat.add_one_sub_one] at h ⊢
  by_cases htop : d / 4503599627370496 % 2048 = 2047
  · rw [if_pos htop] at h
    split at h <;> cases h
  rw [if_neg htop] at h
  by_cases hzero : d / 4503599627370496 % 2048 = 0
  · -- subnormal: the fraction is the significand
    rw [if_pos hzero] at h
    cases h
    refine ⟨?_, .inl ⟨by omega, rfl⟩, by simp [hzero]; omega⟩
    simp only [encode, Format.pack, Format.double_fractionBits, Format.double_width, two_pow_52,
      two_pow_63, Nat.add_one_sub_one]
    rw [if_pos (by omega), hsign]
    omega
  · -- normal: the fraction with its leading one, the field less the bias
    rw [if_neg hzero] at h
    cases h
    refine ⟨?_, .inr ⟨by omega, by rw [two_pow_53]; omega, by omega, by omega⟩, ?_⟩
    · simp only [encode, Format.pack, Format.infinity, Format.double_fractionBits,
        Format.double_width, Format.double_bias, Format.double_topField, two_pow_52, two_pow_63,
        Nat.add_one_sub_one]
      rw [if_neg (by omega), if_neg (by omega), hsign]
      omega
    · simp [htop, hzero]

/-- **A finite double's significand is below `2^53`** and its exponent from `-1074` to `971`. -/
theorem decode_double_bounds {d : Nat} {neg : Bool} {m : Nat} {q : Int} (hd : d < Nat.pow 2 64)
    (h : decode .double d = .finite neg m q) : m < Nat.pow 2 53 ∧ -1074 ≤ q ∧ q ≤ 971 := by
  obtain ⟨-, hrange, -⟩ := decode_double_finite hd h
  rw [two_pow_52, two_pow_53] at hrange
  rw [two_pow_53]
  omega

/-- **`roundRatio` for a double**: with `k` the exponent of the significand's last place (that of
the ratio's leading bit less 52, and never below the subnormal one), it encodes what the ratio
scaled to that place rounds to, a carry to `2^53` moving to the next binade. -/
theorem roundRatio_double_spec {num den : Nat} (hnum : 0 < num) (hden : 0 < den) (neg : Bool) :
    ∃ r, RoundsTo ((num : ℚ) / den / 2 ^ max (floorLog2Ratio num den - 52) (-1074)) r ∧
      roundRatio .double neg num den =
        if r = Nat.pow 2 53 then
          encode .double neg (Nat.pow 2 52) (max (floorLog2Ratio num den - 52) (-1074) + 1)
        else encode .double neg r (max (floorLog2Ratio num den - 52) (-1074)) := by
  unfold roundRatio
  rw [if_neg (by simp [hnum.ne', hden.ne'])]
  simp only [Format.double_fractionBits, Format.double_minQuantum, Format.double_precision,
    Nat.cast_ofNat]
  set k := max (floorLog2Ratio num den - 52) (-1074)
  rcases hab : scaleByTwo den k with ⟨a, b⟩
  obtain ⟨ha, hb, hpow⟩ := scaleByTwo_pos hden hab
  dsimp only
  have hbq : (0 : ℚ) < b := by exact_mod_cast hb
  -- scaling the ratio to the last place is dividing by `2^k`
  have hscaled : ((num * b : Nat) : ℚ) / a = (num : ℚ) / den / 2 ^ k := by
    have haq : (0 : ℚ) < a := by exact_mod_cast ha
    rw [div_div, ← hpow, Nat.cast_mul]
    field_simp
  exact ⟨_, hscaled ▸ roundHalfEven_roundsTo ha, rfl⟩

/-- `roundRatio` for a double, once the exponent of the significand's last place is `k` and the
ratio scaled to that place rounds to `r`. -/
theorem roundRatio_double_eq {num den : Nat} (hnum : 0 < num) (hden : 0 < den) (neg : Bool)
    {k : Int} {r : Nat} (hk : max (floorLog2Ratio num den - 52) (-1074) = k)
    (hr : RoundsTo ((num : ℚ) / den / 2 ^ k) r) :
    roundRatio .double neg num den =
      if r = Nat.pow 2 53 then encode .double neg (Nat.pow 2 52) (k + 1)
      else encode .double neg r k := by
  obtain ⟨r', hr', heq⟩ := roundRatio_double_spec hnum hden neg
  subst hk
  rw [heq, hr'.unique hr]

/-! ## Double patterns fit 64 bits -/

/-- A double pattern with its fields in range fits 64 bits. -/
theorem pack_double_lt (neg : Bool) {field fraction : Nat} (hfield : field < 2048)
    (hfraction : fraction < Nat.pow 2 52) : Format.double.pack neg field fraction < Nat.pow 2 64 := by
  simp only [Format.pack, Format.double_width, Format.double_fractionBits, Nat.add_one_sub_one,
    two_pow_52, two_pow_63, two_pow_64] at hfraction ⊢
  have : field * 4503599627370496 ≤ 2047 * 4503599627370496 := Nat.mul_le_mul_right _ (by omega)
  split <;> omega

/-- Encoding a significand below `2^53` gives a pattern of 64 bits. -/
theorem encode_double_lt (neg : Bool) {m : Nat} (q : Int) (hm : m < Nat.pow 2 53) :
    encode .double neg m q < Nat.pow 2 64 := by
  unfold encode
  by_cases hsub : m < Nat.pow 2 Format.double.fractionBits
  · rw [if_pos hsub]
    exact pack_double_lt neg (by omega) hsub
  rw [if_neg hsub]
  dsimp only
  by_cases htop : (Format.double.topField : Int) ≤ q + Format.double.fractionBits + Format.double.bias
  · rw [if_pos htop]
    exact pack_double_lt neg (by decide) (Nat.two_pow_pos _)
  · rw [if_neg htop]
    simp only [Format.double_fractionBits, Format.double_bias, Format.double_topField] at htop hsub ⊢
    exact pack_double_lt neg (by omega) (by rw [two_pow_52] at hsub ⊢; rw [two_pow_53] at hm; omega)

/-- **Rounding to a double gives a pattern of 64 bits**: the ratio scaled to its last place is
below `2^53`, so it rounds to at most `2^53`, which carries. -/
theorem roundRatio_double_lt (neg : Bool) (num den : Nat) :
    roundRatio .double neg num den < Nat.pow 2 64 := by
  by_cases h0 : num = 0 ∨ den = 0
  · unfold roundRatio
    rw [if_pos (by simpa using h0)]
    exact pack_double_lt neg (by omega) (Nat.two_pow_pos _)
  have hnum : 0 < num := by omega
  have hden : 0 < den := by omega
  obtain ⟨r, hr, heq⟩ := roundRatio_double_spec hnum hden neg
  set k := max (floorLog2Ratio num den - 52) (-1074)
  have hk : floorLog2Ratio num den + 1 - k ≤ 53 := by omega
  have hscaled : (num : ℚ) / den / 2 ^ k < 2 ^ (53 : Int) := by
    rw [div_lt_iff₀ (zpow_pos two_pos k), ← zpow_add₀ two_ne_zero]
    calc (num : ℚ) / den < 2 ^ (floorLog2Ratio num den + 1) := (floorLog2Ratio_spec hnum hden).2
      _ ≤ 2 ^ (53 + k) := zpow_le_zpow_right₀ one_le_two (by omega)
  have hr53 : r ≤ Nat.pow 2 53 := by
    have h53 : (2 : ℚ) ^ (53 : Int) = 9007199254740992 := by norm_num
    have : (r : ℚ) < 9007199254740993 := by linarith [hr.low]
    have : r < 9007199254740993 := by exact_mod_cast this
    rw [two_pow_53]
    omega
  rw [heq]
  split
  · exact encode_double_lt neg _ (Nat.pow_lt_pow_right (by omega) (by omega))
  · exact encode_double_lt neg _ (by omega)

end LlvmAsm.Binary

namespace LlvmAsm.Decimal

open LlvmAsm.Binary

/-! ## The rounding interval of a double -/

namespace RoundingInterval

/-- **`a` comes before `b` as the interval's ends count**: at most `b` when the ends belong to
the interval, strictly below it otherwise. -/
def Below (r : RoundingInterval) (a b : ℚ) : Prop :=
  if r.inclusive then a ≤ b else a < b

/-- **`x` lies in the interval**: between its ends, which belong to it only when it is
inclusive. -/
def Holds (r : RoundingInterval) (x : ℚ) : Prop :=
  r.Below ((r.low : ℚ) / r.den) x ∧ r.Below x ((r.high : ℚ) / r.den)

theorem below_of_lt (r : RoundingInterval) {a b : ℚ} (h : a < b) : r.Below a b := by
  unfold Below
  split
  · exact h.le
  · exact h

/-- Comparing two ratios of naturals as the interval's ends count is comparing cross products. -/
theorem below_ratio_iff (r : RoundingInterval) {a b c e : Nat} (hb : 0 < b) (he : 0 < e) :
    r.Below ((a : ℚ) / b) ((c : ℚ) / e) ↔ if r.inclusive then a * e ≤ c * b else a * e < c * b := by
  have hbq : (0 : ℚ) < b := by exact_mod_cast hb
  have heq : (0 : ℚ) < e := by exact_mod_cast he
  unfold Below
  split
  · rw [div_le_div_iff₀ hbq heq]; exact_mod_cast Iff.rfl
  · rw [div_lt_div_iff₀ hbq heq]; exact_mod_cast Iff.rfl

variable {m : Nat} {q : Int} {narrow : Bool}

/-- The interval of `m · 2^q` over the denominator of `2^(q-2)`. -/
theorem of_eq : RoundingInterval.of m q narrow =
    { low := (4 * m - (if narrow then 1 else 2)) * (scaleByTwo 1 (q - 2)).1
      value := 4 * m * (scaleByTwo 1 (q - 2)).1
      high := (4 * m + 2) * (scaleByTwo 1 (q - 2)).1
      den := (scaleByTwo 1 (q - 2)).2
      inclusive := m % 2 == 0 } := rfl

theorem of_den_pos : 0 < (RoundingInterval.of m q narrow).den := by
  rw [of_eq]
  exact scaleByTwo_snd_pos 1 (q - 2)

/-- A multiple of the common numerator, over the denominator, is that multiple of `2^q / 4`. -/
theorem of_ratio (n : Nat) :
    ((n * (scaleByTwo 1 (q - 2)).1 : Nat) : ℚ) / (scaleByTwo 1 (q - 2)).2 = n * 2 ^ q / 4 := by
  rw [Nat.cast_mul, mul_div_assoc, scaleByTwo_ratio, zpow_sub₀ two_ne_zero]
  push_cast
  ring

theorem of_value_ratio :
    ((RoundingInterval.of m q narrow).value : ℚ) / (RoundingInterval.of m q narrow).den =
      m * 2 ^ q := by
  rw [of_eq]
  dsimp only
  rw [of_ratio]
  push_cast
  ring

/-- The low end lies a quarter of `2^q` below the value when it opens a binade, a half else. -/
theorem of_low_ratio (hm : 1 ≤ m) :
    ((RoundingInterval.of m q narrow).low : ℚ) / (RoundingInterval.of m q narrow).den =
      ((m : ℚ) - (if narrow then 1 / 4 else 1 / 2)) * 2 ^ q := by
  have hw : (if narrow then 1 else 2) ≤ 4 * m := by split <;> omega
  rw [of_eq]
  dsimp only
  rw [of_ratio, Nat.cast_sub hw]
  split <;> push_cast <;> ring

theorem of_high_ratio :
    ((RoundingInterval.of m q narrow).high : ℚ) / (RoundingInterval.of m q narrow).den =
      ((m : ℚ) + 1 / 2) * 2 ^ q := by
  rw [of_eq]
  dsimp only
  rw [of_ratio]
  push_cast
  ring

theorem of_inclusive : (RoundingInterval.of m q narrow).inclusive = true ↔ Even m := by
  rw [of_eq]
  dsimp only
  rw [beq_iff_eq, Nat.even_iff]

end RoundingInterval

/-- **`y` rounds to the significand `m`**, `y` being a value scaled to the significand's last
place: it lies from `m` less a quarter (when the value opens a binade, whose neighbour below is
closer) or a half, to `m` and a half, and on an end only when `m` is even. -/
structure InSignificandInterval (y : ℚ) (m : Nat) (narrow : Bool) : Prop where
  low : (m : ℚ) - (if narrow then 1 / 4 else 1 / 2) ≤ y
  high : y ≤ m + 1 / 2
  tie_low : y = m - (if narrow then 1 / 4 else 1 / 2) → Even m
  tie_high : y = m + 1 / 2 → Even m

/-- The interval of `m · 2^q`, scaled by `2^-q`, is the interval of the significand. -/
theorem RoundingInterval.holds_iff {m : Nat} (hm : 1 ≤ m) (q : Int) (narrow : Bool) (x : ℚ) :
    (RoundingInterval.of m q narrow).Holds x ↔ InSignificandInterval (x / 2 ^ q) m narrow := by
  have hq : (0 : ℚ) < 2 ^ q := zpow_pos two_pos q
  unfold Holds Below
  rw [of_low_ratio hm, of_high_ratio, ← le_div_iff₀ hq, ← div_le_iff₀ hq, ← lt_div_iff₀ hq,
    ← div_lt_iff₀ hq]
  set y := x / 2 ^ q
  constructor
  · rintro ⟨hlo, hhi⟩
    by_cases hinc : (RoundingInterval.of m q narrow).inclusive = true
    · rw [if_pos hinc] at hlo hhi
      have heven := of_inclusive.mp hinc
      exact ⟨hlo, hhi, fun _ => heven, fun _ => heven⟩
    · rw [if_neg hinc] at hlo hhi
      exact ⟨hlo.le, hhi.le, fun he => absurd he hlo.ne', fun he => absurd he hhi.ne⟩
  · intro h
    split
    · exact ⟨h.low, h.high⟩
    · rename_i hinc
      exact ⟨lt_of_le_of_ne h.low fun he => hinc (of_inclusive.mpr (h.tie_low he.symm)),
        lt_of_le_of_ne h.high fun he => hinc (of_inclusive.mpr (h.tie_high he))⟩

end LlvmAsm.Decimal

namespace LlvmAsm.Binary

open LlvmAsm.Decimal

/-! ## Rounding back to a double -/

/-- **A ratio that rounds to the significand of a finite double rounds back to the double.** The
exponent of the significand's last place comes out as the double's own, except for a value just
below a binade the double opens, which rounds up to `2^53` at the place below and carries. -/
theorem roundRatio_of_scaled {d : Nat} {neg : Bool} {m : Nat} {q : Int} {num den : Nat}
    (hd : d < Nat.pow 2 64) (hdec : decode .double d = .finite neg m q) (hm : m ≠ 0)
    (hnum : 0 < num) (hden : 0 < den)
    (hy : InSignificandInterval ((num : ℚ) / den / 2 ^ q) m (isBinadeStart .double d)) :
    roundRatio .double neg num den = d := by
  obtain ⟨henc, hrange, hstart⟩ := decode_double_finite hd hdec
  have hq : (0 : ℚ) < 2 ^ q := zpow_pos two_pos q
  set y := (num : ℚ) / den / 2 ^ q with hydef
  have hxy : (num : ℚ) / den = y * 2 ^ q := by rw [hydef, div_mul_cancel₀ _ hq.ne']
  have hm1 : (1 : ℚ) ≤ m := by exact_mod_cast Nat.one_le_iff_ne_zero.mpr hm
  rw [two_pow_52, two_pow_53] at hrange
  rw [two_pow_52] at hstart
  rcases hrange with ⟨hsub, rfl⟩ | ⟨hlo52, hhi53, hqlo, hqhi⟩
  · -- subnormal: the value stays below `2^52` at the least exponent
    have hnb : isBinadeStart .double d = false := by
      cases h : isBinadeStart .double d
      · rfl
      · exact absurd (hstart.mp h) (by omega)
    rw [hnb] at hy
    have hmq : (m : ℚ) ≤ 4503599627370495 := by exact_mod_cast (by omega : m ≤ 4503599627370495)
    have hE : floorLog2Ratio num den < 52 + -1074 := by
      apply floorLog2Ratio_lt hnum hden
      rw [hxy, zpow_add₀ two_ne_zero]
      exact mul_lt_mul_of_pos_right (by norm_num; linarith [hy.high]) hq
    have hr : RoundsTo y m :=
      ⟨by simpa using hy.low, hy.high, fun h => hy.tie_low (by simpa using h), hy.tie_high⟩
    rw [roundRatio_double_eq hnum hden neg (by omega) hr, if_neg (by rw [two_pow_53]; omega), henc]
  by_cases hbelow : isBinadeStart .double d = true ∧ y < 4503599627370496
  · -- just below the binade the double opens: the value lies between `2^52 - 1/4` and `2^52`
    obtain ⟨hnb, hylt⟩ := hbelow
    obtain rfl := hstart.mp hnb
    rw [hnb] at hy
    have hylo : (4503599627370496 : ℚ) - 1 / 4 ≤ y := by simpa using hy.low
    have hE : floorLog2Ratio num den = 51 + q :=
      floorLog2Ratio_of_scaled hnum hden hxy (by norm_num; linarith) (by norm_num; linarith)
    by_cases hqmin : q = -1074
    · -- at the least exponent there is no place below: the value rounds to `2^52` in place
      subst hqmin
      have hr : RoundsTo y 4503599627370496 :=
        ⟨by push_cast; linarith, by push_cast; linarith, fun h => by push_cast at h; linarith,
          fun h => by push_cast at h; linarith⟩
      rw [roundRatio_double_eq hnum hden neg (by omega) hr, if_neg (by rw [two_pow_53]; omega), henc]
    · -- one place below, the value rounds up to `2^53`, which carries back to `2^52`
      have hscale : (num : ℚ) / den / 2 ^ (q - 1) = 2 * y := by
        rw [hydef, zpow_sub₀ two_ne_zero, zpow_one]; field_simp
      have hr : RoundsTo ((num : ℚ) / den / 2 ^ (q - 1)) 9007199254740992 := by
        rw [hscale]
        exact ⟨by push_cast; linarith, by push_cast; linarith, fun _ => by decide,
          fun h => by push_cast at h; linarith⟩
      rw [roundRatio_double_eq hnum hden neg (by omega) hr, if_pos (by rw [two_pow_53]), two_pow_52,
        sub_add_cancel, henc]
  · -- everywhere else the value lies in `[2^52, 2^53)` at the double's own exponent
    have hmq : (m : ℚ) ≤ 9007199254740991 := by exact_mod_cast (by omega : m ≤ 9007199254740991)
    have hy52 : (4503599627370496 : ℚ) ≤ y := by
      by_cases hnb : isBinadeStart .double d = true
      · exact not_lt.mp fun h => hbelow ⟨hnb, h⟩
      · have hm' : (4503599627370497 : ℚ) ≤ m := by
          have : m ≠ 4503599627370496 := fun h => hnb (hstart.mpr h)
          exact_mod_cast (by omega : 4503599627370497 ≤ m)
        have := hy.low
        rw [if_neg hnb] at this
        linarith
    have hE : floorLog2Ratio num den = 52 + q :=
      floorLog2Ratio_of_scaled hnum hden hxy (by norm_num; linarith)
        (by norm_num; linarith [hy.high])
    have hr : RoundsTo y m := by
      refine ⟨?_, hy.high, fun h => ?_, hy.tie_high⟩
      · have := hy.low
        split at this <;> linarith
      · have hlow := hy.low
        split at hlow
        · exfalso; linarith
        · exact hy.tie_low (by rw [if_neg (by assumption)]; exact h)
    rw [roundRatio_double_eq hnum hden neg (by omega) hr, if_neg (by rw [two_pow_53]; omega), henc]

/-- **A ratio in the rounding interval of a finite double rounds back to the double.** -/
theorem roundRatio_of_holds {d : Nat} {neg : Bool} {m : Nat} {q : Int} {num den : Nat}
    (hd : d < Nat.pow 2 64) (hdec : decode .double d = .finite neg m q) (hm : m ≠ 0)
    (hnum : 0 < num) (hden : 0 < den)
    (hx : (RoundingInterval.of m q (isBinadeStart .double d)).Holds ((num : ℚ) / den)) :
    roundRatio .double neg num den = d :=
  roundRatio_of_scaled hd hdec hm hnum hden
    ((RoundingInterval.holds_iff (Nat.one_le_iff_ne_zero.mpr hm) q _ _).mp hx)

end LlvmAsm.Binary
