import LlvmAsm.Proofs.Floats.Rounding

/-!
# `Proofs.Floats.Shortest` — the shortest digits lie in the rounding interval

`Decimal.shortest` walks the decimal grids below the value's leading position, one more digit at
a time, looking for a grid point inside the value's rounding interval (`gridPick`); on the
seventeenth grid it takes the nearest grid point. Whatever it returns lies in the interval: a
picked point by the check that picked it (`gridPick_holds`), the nearest point of the last grid
because that grid's step is below the distance from the value to either end (`nearest_holds`).
Dropping trailing zeros keeps the value (`stripZeros_value`).

Main statement: `shortest_holds`.
-/

namespace LlvmAsm.Decimal

open LlvmAsm.Binary

/-! ## Powers of ten and digit counts -/

theorem scaleByTen_snd_pos (x : Nat) (e : Int) : 0 < (scaleByTen x e).2 := by
  unfold scaleByTen
  split
  · exact Nat.one_pos
  · exact Nat.pow_pos (by decide)

/-- `scaleByTen x e` is `x · 10^e`. -/
theorem scaleByTen_ratio (x : Nat) (e : Int) :
    ((scaleByTen x e).1 : ℚ) / (scaleByTen x e).2 = x * 10 ^ e := by
  unfold scaleByTen
  split
  · rename_i he
    rw [show Nat.pow 10 e.toNat = 10 ^ e.toNat from rfl, Nat.cast_one, div_one, Nat.cast_mul,
      Nat.cast_pow, Nat.cast_ofNat, ← zpow_natCast, Int.toNat_of_nonneg he]
  · rename_i he
    rw [show Nat.pow 10 (-e).toNat = 10 ^ (-e).toNat from rfl, Nat.cast_pow, Nat.cast_ofNat,
      ← zpow_natCast, Int.toNat_of_nonneg (by omega), zpow_neg, div_eq_mul_inv, inv_inv]

/-- `scaleByTen x e` of a positive `x` is `x · 10^e` as a ratio of two positive naturals. -/
theorem scaleByTen_pos {x : Nat} (hx : 0 < x) {e : Int} {a b : Nat} (hab : scaleByTen x e = (a, b)) :
    0 < a ∧ 0 < b ∧ (a : ℚ) / b = x * 10 ^ e := by
  have hratio := scaleByTen_ratio x e
  have hb := scaleByTen_snd_pos x e
  rw [hab] at hratio hb
  dsimp only at hratio hb
  have hbq : (0 : ℚ) < b := by exact_mod_cast hb
  have hxq : (0 : ℚ) < x := by exact_mod_cast hx
  have hpos : (0 : ℚ) < a / b := by rw [hratio]; exact mul_pos hxq (zpow_pos (by norm_num) e)
  exact ⟨by exact_mod_cast (div_pos_iff_of_pos_right hbq).mp hpos, hb, hratio⟩

/-- **A positive natural of `L` digits lies in `[10^(L-1), 10^L)`.** -/
theorem digitCount_bounds {n : Nat} (hn : 0 < n) :
    (10 : ℚ) ^ ((digitCount n : Int) - 1) ≤ n ∧ (n : ℚ) < 10 ^ (digitCount n : Int) := by
  have hL : 0 < digitCount n := Nat.length_toDigits_pos
  have hhi : n < 10 ^ digitCount n := (Nat.length_toDigits_le_iff (by decide) hL).mp le_rfl
  have hlo : 10 ^ (digitCount n - 1) ≤ n := by
    by_cases h1 : digitCount n = 1
    · rw [h1]
      exact hn
    · refine not_lt.mp fun hlt => ?_
      have := (Nat.length_toDigits_le_iff (by decide) (by omega)).mpr hlt
      unfold digitCount at this h1 hL
      omega
  constructor
  · rw [show (digitCount n : Int) - 1 = ((digitCount n - 1 : Nat) : Int) by omega, zpow_natCast]
    exact_mod_cast hlo
  · rw [zpow_natCast]
    exact_mod_cast hhi

/-- **The decimal exponent of a ratio**: `10^(E-1) ≤ num / den < 10^E`. -/
theorem decimalExponent_spec {num den : Nat} (hnum : 0 < num) (hden : 0 < den) :
    (10 : ℚ) ^ (decimalExponent num den - 1) ≤ num / den ∧
      (num : ℚ) / den < 10 ^ decimalExponent num den := by
  obtain ⟨hn₁, hn₂⟩ := digitCount_bounds hnum
  obtain ⟨hd₁, hd₂⟩ := digitCount_bounds hden
  have hdenq : (0 : ℚ) < den := by exact_mod_cast hden
  set e : Int := (digitCount num : Int) - digitCount den with he
  -- the digit counts bound the ratio within a factor of a hundred
  have hlow : (10 : ℚ) ^ (e - 1) < num / den := by
    rw [lt_div_iff₀ hdenq]
    calc (10 : ℚ) ^ (e - 1) * den < 10 ^ (e - 1) * 10 ^ (digitCount den : Int) := by gcongr
      _ = 10 ^ ((digitCount num : Int) - 1) := by rw [← zpow_add₀ (by norm_num)]; congr 1; omega
      _ ≤ num := hn₁
  have hhigh : (num : ℚ) / den < 10 ^ (e + 1) := by
    rw [div_lt_iff₀ hdenq]
    calc (num : ℚ) < 10 ^ (digitCount num : Int) := hn₂
      _ = 10 ^ (e + 1) * 10 ^ ((digitCount den : Int) - 1) := by
        rw [← zpow_add₀ (by norm_num)]; congr 1; omega
      _ ≤ 10 ^ (e + 1) * den := by gcongr
  unfold decimalExponent
  dsimp only
  rw [← he]
  rcases hab : scaleByTen 1 e with ⟨a, b⟩
  obtain ⟨-, hb, hpow⟩ := scaleByTen_pos Nat.one_pos hab
  dsimp only
  rw [Nat.cast_one, one_mul] at hpow
  have hbq : (0 : ℚ) < b := by exact_mod_cast hb
  -- the one comparison tells which of the two candidate exponents it is
  have htest : num * b < a * den ↔ (num : ℚ) / den < 10 ^ e := by
    rw [← hpow, div_lt_div_iff₀ hdenq hbq]
    exact_mod_cast Iff.rfl
  split
  · rename_i hlt
    exact ⟨hlow.le, htest.mp hlt⟩
  · rename_i hge
    exact ⟨by rw [add_sub_cancel_right]; exact not_lt.mp (mt htest.mpr hge), hhigh⟩

/-- **Dropping trailing zeros keeps the value** `c · 10^e`. -/
theorem stripZeros_value (c : Nat) (e : Int) :
    ((stripZeros c e).1 : ℚ) * 10 ^ (stripZeros c e).2 = c * 10 ^ e := by
  fun_induction stripZeros c e with
  | case1 c e h ih =>
    have hc : (c : ℚ) = (c / 10 : Nat) * 10 := by
      exact_mod_cast (Nat.div_mul_cancel (Nat.dvd_of_mod_eq_zero h.2)).symm
    rw [ih, hc, zpow_add₀ (by norm_num), zpow_one]
    ring
  | case2 c e _ => rfl

/-! ## Picking a grid point -/

section Picking

variable {r : RoundingInterval}

/-- An interval whose value lies above its low end lies above it. -/
theorem RoundingInterval.pos_of_below {r : RoundingInterval} {a b : ℚ} (ha : 0 < a)
    (h : r.Below a b) : 0 < b := by
  unfold RoundingInterval.Below at h
  split at h <;> linarith

/-- The outcome of the tests of `gridPick`: the point below when it passes, the point above when
it passes, the nearer of the two when both do. -/
theorem pick_eq_some {A B T : Prop} [Decidable A] [Decidable B] [Decidable T] {d c : Nat}
    (h : (if (decide A && decide B) = true then (if T then some d else some (d + 1))
      else if A then some d else if B then some (d + 1) else none) = some c) :
    c = d ∧ A ∨ c = d + 1 ∧ B := by
  by_cases hA : A
  · by_cases hB : B
    · rw [if_pos (by simp [hA, hB])] at h
      split at h
      · exact .inl ⟨(Option.some.inj h).symm, hA⟩
      · exact .inr ⟨(Option.some.inj h).symm, hB⟩
    · rw [if_neg (by simp [hB]), if_pos hA] at h
      exact .inl ⟨(Option.some.inj h).symm, hA⟩
  · rw [if_neg (by simp [hA]), if_neg hA] at h
    split at h
    · next hB => exact .inr ⟨(Option.some.inj h).symm, hB⟩
    · cases h

/-- **A picked grid point lies in the interval.** The point below the value is picked only when
it is past the low end, the point above only when it is before the high end; the other end holds
since the value lies strictly inside. -/
theorem gridPick_holds (hden : 0 < r.den) (hlow : r.low < r.value) (hhigh : r.value < r.high)
    {j : Int} {c : Nat} (h : gridPick r j = some c) : r.Holds (c * 10 ^ j) := by
  unfold gridPick at h
  rcases hab : scaleByTen 1 j with ⟨ua, ub⟩
  obtain ⟨hua, hub, hpow⟩ := scaleByTen_pos Nat.one_pos hab
  rw [hab] at h
  dsimp only at h
  rw [Nat.cast_one, one_mul] at hpow
  have hdenq : (0 : ℚ) < r.den := by exact_mod_cast hden
  have hubq : (0 : ℚ) < ub := by exact_mod_cast hub
  -- a grid point is a ratio over `ub`, and the value lies strictly inside the interval
  have hgrid : ∀ n : Nat, (n : ℚ) * 10 ^ j = ((n * ua : Nat) : ℚ) / ub := fun n => by
    rw [← hpow, Nat.cast_mul, mul_div_assoc]
  have hlv : (r.low : ℚ) / r.den < r.value / r.den :=
    (div_lt_div_iff_of_pos_right hdenq).mpr (by exact_mod_cast hlow)
  have hvh : (r.value : ℚ) / r.den < r.high / r.den :=
    (div_lt_div_iff_of_pos_right hdenq).mpr (by exact_mod_cast hhigh)
  set d := r.value * ub / (r.den * ua) with hd
  -- `d` and `d + 1` are the grid points around the value
  have hdv : ((d * ua : Nat) : ℚ) / ub ≤ r.value / r.den := by
    rw [div_le_div_iff₀ hubq hdenq]
    have := Nat.div_mul_le_self (r.value * ub) (r.den * ua)
    rw [← hd] at this
    exact_mod_cast (by linarith [this] : d * ua * r.den ≤ r.value * ub)
  have hvd : (r.value : ℚ) / r.den < (((d + 1) * ua : Nat) : ℚ) / ub := by
    rw [div_lt_div_iff₀ hdenq hubq]
    have := Nat.lt_mul_div_succ (r.value * ub) (Nat.mul_pos hden hua)
    rw [← hd] at this
    exact_mod_cast (by linarith [this] : r.value * ub < (d + 1) * ua * r.den)
  have hdown : r.Below ((r.low : ℚ) / r.den) (((d * ua : Nat) : ℚ) / ub) → r.Holds (d * 10 ^ j) :=
    fun hb => by
      rw [hgrid]
      exact ⟨hb, r.below_of_lt (lt_of_le_of_lt hdv hvh)⟩
  have hup : r.Below ((((d + 1) * ua : Nat) : ℚ) / ub) ((r.high : ℚ) / r.den) →
      r.Holds ((d + 1 : Nat) * 10 ^ j) := fun hb => by
    rw [hgrid]
    exact ⟨r.below_of_lt (lt_trans hlv hvd), hb⟩
  -- the pick is `d` past the low end or `d + 1` before the high end
  rcases pick_eq_some h with ⟨hc, hA⟩ | ⟨hc, hB⟩
  · rw [hc]
    exact hdown ((r.below_ratio_iff hden hub).mpr hA)
  · rw [hc]
    exact hup ((r.below_ratio_iff hub hden).mpr hB)

/-- **The nearest grid point lies in the interval** when the grid's step is at most twice the
distance from the value to the low end and below twice the distance to the high end. -/
theorem nearest_holds (hden : 0 < r.den) {j : Int} {ua ub : Nat} (hab : scaleByTen 1 j = (ua, ub))
    (hlo : (10 : ℚ) ^ j ≤ 2 * ((r.value : ℚ) / r.den - r.low / r.den))
    (hhi : (10 : ℚ) ^ j < 2 * ((r.high : ℚ) / r.den - r.value / r.den)) :
    r.Holds (((2 * r.value * ub + r.den * ua) / (2 * r.den * ua) : Nat) * 10 ^ j) := by
  obtain ⟨hua, hub, hpow⟩ := scaleByTen_pos Nat.one_pos hab
  rw [Nat.cast_one, one_mul] at hpow
  have hdenq : (0 : ℚ) < r.den := by exact_mod_cast hden
  have hubq : (0 : ℚ) < ub := by exact_mod_cast hub
  set c := (2 * r.value * ub + r.den * ua) / (2 * r.den * ua) with hc
  set v : ℚ := r.value / r.den
  have hvalue : (r.value : ℚ) = v * r.den := by rw [div_mul_cancel₀ _ hdenq.ne']
  have hstep : (ua : ℚ) = 10 ^ j * ub := by rw [← hpow]; field_simp
  -- `c` is the value over the step, plus a half, rounded down
  have hc₁ : ((c * (2 * r.den * ua) : Nat) : ℚ) ≤ ((2 * r.value * ub + r.den * ua : Nat) : ℚ) := by
    exact_mod_cast Nat.div_mul_le_self _ _
  have hc₂ : ((2 * r.value * ub + r.den * ua : Nat) : ℚ) < (((2 * r.den * ua) * (c + 1) : Nat) : ℚ) := by
    exact_mod_cast Nat.lt_mul_div_succ _ (by positivity)
  push_cast at hc₁ hc₂
  rw [hvalue, hstep] at hc₁ hc₂
  have hpos : (0 : ℚ) < 2 * r.den * ub := by positivity
  have hnear₁ : (c : ℚ) * 10 ^ j ≤ v + 10 ^ j / 2 := le_of_mul_le_mul_left (by nlinarith) hpos
  have hnear₂ : v - 10 ^ j / 2 < (c : ℚ) * 10 ^ j := lt_of_mul_lt_mul_left (by nlinarith) hpos.le
  exact ⟨r.below_of_lt (by linarith), r.below_of_lt (by linarith)⟩

/-- **The search ends in the interval** when the last grid it may reach is fine enough: every
point it picks lies in the interval, and so does the nearest point of the last grid. The
induction is on the grids left, the first grid tried moving one digit down each time. -/
theorem searchGrids_holds (hden : 0 < r.den) (hlow : r.low < r.value) (hhigh : r.value < r.high)
    (top : Int) (fuel n : Nat)
    (hlo : (10 : ℚ) ^ (top - (n + fuel : Nat)) ≤ 2 * ((r.value : ℚ) / r.den - r.low / r.den))
    (hhi : (10 : ℚ) ^ (top - (n + fuel : Nat)) < 2 * ((r.high : ℚ) / r.den - r.value / r.den)) :
    r.Holds ((searchGrids r top (fuel + 1) n).1 * 10 ^ (searchGrids r top (fuel + 1) n).2) := by
  induction fuel generalizing n with
  | zero =>
    rw [searchGrids]
    split
    · next c hpick =>
      rw [stripZeros_value]
      exact gridPick_holds hden hlow hhigh hpick
    · rw [if_pos rfl]
      rcases hab : scaleByTen 1 (top - n) with ⟨ua, ub⟩
      dsimp only
      rw [stripZeros_value]
      exact nearest_holds hden hab (by simpa using hlo) (by simpa using hhi)
  | succ fuel ih =>
    rw [searchGrids]
    split
    · next c hpick =>
      rw [stripZeros_value]
      exact gridPick_holds hden hlow hhigh hpick
    · rw [if_neg (Nat.succ_ne_zero fuel)]
      have hlast : n + 1 + fuel = n + (fuel + 1) := by omega
      exact ih (n + 1) (by rwa [hlast]) (by rwa [hlast])

end Picking

/-! ## The shortest digits of a double -/

/-- **The shortest digits of a positive significand lie in its rounding interval**, and are
positive. Seventeen digits suffice: on the seventeenth grid below the value's leading position
the step is below `m · 2^q / 10^16`, less than the gap to either end, because `2^53 < 10^16`. -/
theorem shortest_holds {m : Nat} {q : Int} {narrow : Bool} (hm : 0 < m) (hm53 : m < Nat.pow 2 53)
    (hnarrow : narrow = true → m = Nat.pow 2 52) :
    0 < (shortest m q narrow).1 ∧
      (RoundingInterval.of m q narrow).Holds
        ((shortest m q narrow).1 * 10 ^ (shortest m q narrow).2) := by
  set r := RoundingInterval.of m q narrow with hr
  have hm1 : 1 ≤ m := hm
  have hq : (0 : ℚ) < 2 ^ q := zpow_pos two_pos q
  have hmq : (1 : ℚ) ≤ m := by exact_mod_cast hm1
  have hden : 0 < r.den := RoundingInterval.of_den_pos
  have hdenq : (0 : ℚ) < r.den := by exact_mod_cast hden
  have hv : (r.value : ℚ) / r.den = m * 2 ^ q := RoundingInterval.of_value_ratio
  have hl : (r.low : ℚ) / r.den = ((m : ℚ) - (if narrow then 1 / 4 else 1 / 2)) * 2 ^ q :=
    RoundingInterval.of_low_ratio hm1
  have hh : (r.high : ℚ) / r.den = ((m : ℚ) + 1 / 2) * 2 ^ q := RoundingInterval.of_high_ratio
  have hw : (0 : ℚ) < (if narrow then 1 / 4 else 1 / 2) ∧ (if narrow then 1 / 4 else 1 / 2) ≤ (1 / 2 : ℚ) := by
    split <;> norm_num
  -- the value lies strictly inside, at a positive distance from the positive low end
  have hlowpos : (0 : ℚ) < r.low / r.den := by rw [hl]; exact mul_pos (by linarith) hq
  have hlow : r.low < r.value := by
    have : (r.low : ℚ) / r.den < r.value / r.den := by rw [hl, hv]; nlinarith
    exact_mod_cast (div_lt_div_iff_of_pos_right hdenq).mp this
  have hhigh : r.value < r.high := by
    have : (r.value : ℚ) / r.den < r.high / r.den := by rw [hh, hv]; nlinarith
    exact_mod_cast (div_lt_div_iff_of_pos_right hdenq).mp this
  have hvalue : 0 < r.value := by omega
  -- the seventeenth grid's step is at most `m · 2^q / 10^16`
  set top := decimalExponent r.value r.den
  have hstep : (10 : ℚ) ^ (top - 17) ≤ m * 2 ^ q / 10 ^ 16 := by
    have htop := (decimalExponent_spec hvalue hden).1
    rw [hv] at htop
    rw [le_div_iff₀ (by norm_num), show top - 17 = (top - 1) + (-16) by ring,
      zpow_add₀ (by norm_num), mul_assoc]
    norm_num
    linarith
  have hm16 : (m : ℚ) < 10 ^ 16 := by
    have : m < 10 ^ 16 := lt_trans hm53 (by decide)
    exact_mod_cast this
  have hhi : (10 : ℚ) ^ (top - 17) < 2 * ((r.high : ℚ) / r.den - r.value / r.den) := by
    rw [hh, hv]
    calc (10 : ℚ) ^ (top - 17) ≤ m * 2 ^ q / 10 ^ 16 := hstep
      _ < 2 ^ q := by rw [div_lt_iff₀ (by norm_num)]; nlinarith
      _ = 2 * ((m + 1 / 2) * 2 ^ q - m * 2 ^ q) := by ring
  have hlo : (10 : ℚ) ^ (top - 17) ≤ 2 * ((r.value : ℚ) / r.den - r.low / r.den) := by
    rw [hl, hv]
    refine hstep.trans ?_
    rw [div_le_iff₀ (by norm_num)]
    cases narrow with
    | true =>
      -- a binade start: `m = 2^52`, and `2^53 ≤ 10^16`
      have hm52 : (m : ℚ) = 4503599627370496 := by exact_mod_cast hnarrow rfl
      rw [hm52]
      norm_num
      nlinarith
    | false =>
      norm_num
      nlinarith
  have hholds : r.Holds ((shortest m q narrow).1 * 10 ^ (shortest m q narrow).2) := by
    unfold shortest
    dsimp only
    rw [← hr]
    exact searchGrids_holds hden hlow hhigh top 16 1 (by simpa using hlo) (by simpa using hhi)
  refine ⟨?_, hholds⟩
  have := RoundingInterval.pos_of_below hlowpos hholds.1
  have hc : (0 : ℚ) < (shortest m q narrow).1 :=
    (pos_of_mul_pos_left this (zpow_pos (by norm_num) _).le)
  exact_mod_cast hc

end LlvmAsm.Decimal
