import Mathlib.Algebra.Order.Field.Power
import Mathlib.Algebra.Order.Field.Rat
import Mathlib.Tactic.FieldSimp
import Mathlib.Tactic.Linarith
import Mathlib.Tactic.NormNum
import Mathlib.Tactic.Positivity
import SmallLisp.Number.Decimal
import SmallLisp.Proofs.Number.FloatBits

/-!
Rounding to the nearest float.

`nearestBits n d` depends on the ratio `n / d` alone (`Binary.nearestBits_congr`), and the ratio that
a finite float is gives back its bits (`Binary.nearestBits_of_ofBits`).  The float of a decimal is
therefore determined by its sign and its value (`Decimal.toFloat_congr`): the bounds beyond which
`Decimal.toFloat` takes a short cut are bounds beyond which rounding gives that answer
(`Decimal.toFloat_eq_nearest`).
-/

namespace SmallLisp

namespace Binary

/-! ## Powers -/

theorem zpow_eq_div {b : Nat} (hb : 0 < b) (k : Int) :
    (b : ℚ) ^ k = (Nat.pow b k.toNat : Nat) / (Nat.pow b (-k).toNat : Nat) := by
  have hb' : (b : ℚ) ≠ 0 := by positivity
  simp only [Nat.pow_eq, Nat.cast_pow]
  rw [← zpow_natCast, ← zpow_natCast, ← zpow_sub₀ hb']
  congr 1
  omega

theorem pow_pos_cast {b : Nat} (hb : 0 < b) (k : Nat) : (0 : ℚ) < (Nat.pow b k : Nat) := by
  have h : 0 < Nat.pow b k := Nat.pow_pos hb
  exact_mod_cast h

/-- A number times a power, which may be negative, as a ratio of natural numbers. -/
theorem ratio_zpow {b : Nat} (hb : 0 < b) (n : Nat) (k : Int) {r : Nat × Nat}
    (hr : r = if 0 ≤ k then (n * Nat.pow b k.toNat, 1) else (n, Nat.pow b (-k).toNat)) :
    0 < r.2 ∧ (r.1 : ℚ) / r.2 = n * (b : ℚ) ^ k := by
  rw [zpow_eq_div hb k, hr]
  split
  · next hk =>
    have hneg : (-k).toNat = 0 := by omega
    refine ⟨Nat.one_pos, ?_⟩
    rw [hneg]
    simp
  · next hk =>
    have hpos : k.toNat = 0 := by omega
    refine ⟨Nat.pow_pos hb, ?_⟩
    rw [hpos]
    simp [div_eq_mul_inv]

/-- The test of `floorLog2`. -/
theorem zpow_le_div_iff {n d : Nat} (hd : 0 < d) (k : Int) :
    (2 : ℚ) ^ k ≤ n / d ↔ d * Nat.pow 2 k.toNat ≤ n * Nat.pow 2 (-k).toNat := by
  have hd' : (0 : ℚ) < d := by exact_mod_cast hd
  have hk := pow_pos_cast Nat.two_pos (-k).toNat
  have h := zpow_eq_div Nat.two_pos k
  rw [Nat.cast_ofNat] at h
  rw [h, div_le_div_iff₀ hk hd', mul_comm]
  exact_mod_cast Iff.rfl

/-- One power of two at most fits below a ratio and has its double above it. -/
theorem zpow_unique {q : ℚ} {j k : Int} (hj : (2 : ℚ) ^ j ≤ q) (hj' : q < 2 ^ (j + 1))
    (hk : (2 : ℚ) ^ k ≤ q) (hk' : q < 2 ^ (k + 1)) : j = k := by
  have h₁ : j < k + 1 := (zpow_lt_zpow_iff_right₀ one_lt_two).1 (lt_of_le_of_lt hj hk')
  have h₂ : k < j + 1 := (zpow_lt_zpow_iff_right₀ one_lt_two).1 (lt_of_le_of_lt hk hj')
  omega

theorem zpow_log2_le {n : Nat} (hn : 0 < n) : (2 : ℚ) ^ (n.log2 : Int) ≤ n := by
  have h := Nat.log2_self_le (Nat.pos_iff_ne_zero.1 hn)
  rw [zpow_natCast]
  exact_mod_cast h

theorem lt_zpow_log2 (n : Nat) : (n : ℚ) < 2 ^ ((n.log2 : Int) + 1) := by
  have h := Nat.lt_log2_self (n := n)
  have hcast : ((n.log2 : Int) + 1) = ((n.log2 + 1 : Nat) : Int) := by push_cast; rfl
  rw [hcast, zpow_natCast]
  exact_mod_cast h

/-! ## The leading place -/

section FloorLog2

variable {n d : Nat} (hn : 0 < n) (hd : 0 < d)
include hn hd

theorem zpow_floorLog2_le : (2 : ℚ) ^ floorLog2 n d ≤ n / d ∧ (n : ℚ) / d < 2 ^ (floorLog2 n d + 1) := by
  have hd' : (0 : ℚ) < d := by exact_mod_cast hd
  have hlow : (2 : ℚ) ^ ((n.log2 : Int) - d.log2 - 1) ≤ n / d := by
    rw [le_div_iff₀ hd']
    calc (2 : ℚ) ^ ((n.log2 : Int) - d.log2 - 1) * d
        ≤ 2 ^ ((n.log2 : Int) - d.log2 - 1) * 2 ^ ((d.log2 : Int) + 1) :=
          mul_le_mul_of_nonneg_left (lt_zpow_log2 d).le (by positivity)
      _ = 2 ^ (n.log2 : Int) := by
          rw [← zpow_add₀ two_ne_zero]
          congr 1
          omega
      _ ≤ n := zpow_log2_le hn
  have hhigh : (n : ℚ) / d < 2 ^ ((n.log2 : Int) - d.log2 + 1) := by
    rw [div_lt_iff₀ hd']
    calc (n : ℚ) < 2 ^ ((n.log2 : Int) + 1) := lt_zpow_log2 n
      _ = 2 ^ ((n.log2 : Int) - d.log2 + 1) * 2 ^ (d.log2 : Int) := by
          rw [← zpow_add₀ two_ne_zero]
          congr 1
          omega
      _ ≤ 2 ^ ((n.log2 : Int) - d.log2 + 1) * d :=
          mul_le_mul_of_nonneg_left (zpow_log2_le hd) (by positivity)
  unfold floorLog2
  dsimp only
  split
  · next h => exact ⟨(zpow_le_div_iff hd _).2 h, hhigh⟩
  · next h =>
    have hlt := lt_of_not_ge fun hle => h ((zpow_le_div_iff hd _).1 hle)
    exact ⟨hlow, by rw [sub_add_cancel]; exact hlt⟩

theorem floorLog2_eq {k : Int} (h : (2 : ℚ) ^ k ≤ n / d) (h' : (n : ℚ) / d < 2 ^ (k + 1)) :
    floorLog2 n d = k := by
  obtain ⟨hle, hlt⟩ := zpow_floorLog2_le hn hd
  exact zpow_unique hle hlt h h'

end FloorLog2

/-! ## Rounding to a whole number -/

theorem roundHalfEven_mul_right (n d : Nat) {k : Nat} (hk : 0 < k) :
    roundHalfEven (n * k) (d * k) = roundHalfEven n d := by
  have hlt : 2 * (n % d * k) < d * k ↔ 2 * (n % d) < d := by
    rw [← Nat.mul_assoc]
    exact Nat.mul_lt_mul_right hk
  have hgt : d * k < 2 * (n % d * k) ↔ d < 2 * (n % d) := by
    rw [← Nat.mul_assoc]
    exact Nat.mul_lt_mul_right hk
  unfold roundHalfEven
  simp only [Nat.mul_div_mul_right _ _ hk, Nat.mul_mod_mul_right, hlt, hgt]

/-- Rounding sees the ratio only. -/
theorem roundHalfEven_congr {n d n' d' : Nat} (hd : 0 < d) (hd' : 0 < d') (h : n * d' = n' * d) :
    roundHalfEven n d = roundHalfEven n' d' := by
  rw [← roundHalfEven_mul_right n d hd', ← roundHalfEven_mul_right n' d' hd, h, Nat.mul_comm d d']

theorem roundHalfEven_mul_self (m : Nat) {d : Nat} (hd : 0 < d) : roundHalfEven (m * d) d = m := by
  unfold roundHalfEven
  dsimp only
  rw [Nat.mul_mod_left, Nat.mul_div_cancel m hd, if_pos (by omega)]

theorem div_le_roundHalfEven (n d : Nat) : n / d ≤ roundHalfEven n d := by
  unfold roundHalfEven
  dsimp only
  split
  · omega
  · split <;> omega

theorem roundHalfEven_eq_zero {n d : Nat} (h : 2 * n < d) : roundHalfEven n d = 0 := by
  have hlt : n < d := by omega
  unfold roundHalfEven
  dsimp only
  rw [Nat.mod_eq_of_lt hlt, Nat.div_eq_of_lt hlt, if_pos h]

/-! ## Bits of the nearest float -/

theorem nearestBits_zero (d : Nat) : nearestBits 0 d = 0 := rfl

/-- The nearest float is a matter of the ratio. -/
theorem nearestBits_congr {n d n' d' : Nat} (hd : 0 < d) (hd' : 0 < d')
    (h : (n : ℚ) / d = n' / d') : nearestBits n d = nearestBits n' d' := by
  have hdq : (d : ℚ) ≠ 0 := by positivity
  have hdq' : (d' : ℚ) ≠ 0 := by positivity
  have hmul : n * d' = n' * d := by
    have := (div_eq_div_iff hdq hdq').1 h
    exact_mod_cast this
  by_cases hn : n = 0
  · subst hn
    have hn' : n' = 0 := by
      rw [Nat.zero_mul] at hmul
      rcases Nat.mul_eq_zero.1 hmul.symm with h0 | h0
      · exact h0
      · omega
    rw [hn', nearestBits_zero, nearestBits_zero]
  · have hn' : n' ≠ 0 := by
      intro h0
      rw [h0, Nat.zero_mul] at hmul
      rcases Nat.mul_eq_zero.1 hmul with h0 | h0
      · exact hn h0
      · omega
    obtain ⟨hle, hlt⟩ := zpow_floorLog2_le (Nat.pos_of_ne_zero hn') hd'
    rw [← h] at hle hlt
    have hlog : floorLog2 n d = floorLog2 n' d' := floorLog2_eq (Nat.pos_of_ne_zero hn) hd hle hlt
    unfold nearestBits
    rw [if_neg hn, if_neg hn', hlog]
    dsimp only
    congr 1
    apply roundHalfEven_congr
    · exact Nat.mul_pos hd (Nat.pow_pos Nat.two_pos)
    · exact Nat.mul_pos hd' (Nat.pow_pos Nat.two_pos)
    · rw [Nat.mul_mul_mul_comm, hmul, Nat.mul_mul_mul_comm]

/-! ### Floats as ratios -/

theorem scaled_pos (m : Nat) (e : Int) : 0 < (scaled m e).2 :=
  (ratio_zpow Nat.two_pos m e rfl).1

theorem scaled_value (m : Nat) (e : Int) : ((scaled m e).1 : ℚ) / (scaled m e).2 = m * 2 ^ e :=
  (ratio_zpow Nat.two_pos m e rfl).2

/-- A ratio is a whole number if its denominator divides the numerator. -/
theorem scaled_value_eq_iff {m : Nat} {e : Int} {k : Nat} :
    (m : ℚ) * 2 ^ e = k ↔
      (scaled m e).1 % (scaled m e).2 = 0 ∧ (scaled m e).1 / (scaled m e).2 = k := by
  have hpos := scaled_pos m e
  have hpos' : ((scaled m e).2 : ℚ) ≠ 0 := by positivity
  rw [← scaled_value, div_eq_iff hpos']
  constructor
  · intro h
    have hmul : (scaled m e).1 = k * (scaled m e).2 := by exact_mod_cast h
    rw [hmul]
    exact ⟨Nat.mul_mod_left _ _, Nat.mul_div_cancel _ hpos⟩
  · rintro ⟨hmod, rfl⟩
    have hmul := Nat.div_mul_cancel (Nat.dvd_of_mod_eq_zero hmod)
    exact_mod_cast hmul.symm

/-- A significand of at most 53 bits that is as long as its exponent lets it be is not rounded. -/
theorem nearestBits_scaled {m : Nat} {e : Int} (hm : m < 2 ^ 53) (he : -1074 ≤ e)
    (h : 2 ^ 52 ≤ m ∨ e = -1074) :
    nearestBits (scaled m e).1 (scaled m e).2 = (e + 1074).toNat * 2 ^ 52 + m := by
  have hn : (2 : ℚ) ^ e ≠ 0 := by positivity
  by_cases h0 : m = 0
  · have he' : e = -1074 := by omega
    subst h0 he'
    rfl
  · have hpos : 0 < m := Nat.pos_of_ne_zero h0
    have hnum : 0 < (scaled m e).1 := by
      unfold scaled
      split
      · exact Nat.mul_pos hpos (Nat.pow_pos Nat.two_pos)
      · exact hpos
    have hlog : floorLog2 (scaled m e).1 (scaled m e).2 = m.log2 + e := by
      apply floorLog2_eq hnum (scaled_pos m e)
      · rw [scaled_value, zpow_add₀ two_ne_zero]
        exact mul_le_mul_of_nonneg_right (zpow_log2_le hpos) (by positivity)
      · rw [scaled_value, add_right_comm, zpow_add₀ two_ne_zero]
        exact mul_lt_mul_of_pos_right (lt_zpow_log2 m) (by positivity)
    have hexp : max ((m.log2 : Int) + e - 52) (-1074) = e := by
      have hlt : m.log2 < 53 := (Nat.log2_lt h0).2 hm
      rcases h with hbig | rfl
      · have hge : 52 ≤ m.log2 := (Nat.le_log2 h0).2 hbig
        omega
      · omega
    have hround : roundHalfEven ((scaled m e).1 * Nat.pow 2 (-e).toNat)
        ((scaled m e).2 * Nat.pow 2 e.toNat) = m := by
      unfold scaled
      split
      · next hge =>
        have hneg : (-e).toNat = 0 := by omega
        rw [hneg]
        simpa using roundHalfEven_mul_self m (Nat.pow_pos (n := e.toNat) Nat.two_pos)
      · next hlt =>
        have hzero : e.toNat = 0 := by omega
        rw [hzero]
        simpa using roundHalfEven_mul_self m (Nat.pow_pos (n := (-e).toNat) Nat.two_pos)
    unfold nearestBits
    rw [if_neg (Nat.pos_iff_ne_zero.1 hnum), hlog]
    dsimp only
    rw [hexp, hround]
    rfl

/-- The ratio that a finite float is gives back its bits. -/
theorem nearestBits_of_ofBits {b : Nat} (hb : b < 2 ^ 64) {negative : Bool} {m : Nat} {e : Int}
    (h : ofBits b = .finite negative m e) :
    nearestBits (scaled m e).1 (scaled m e).2 + (if negative then signBit else 0) = b ∧
      nearestBits (scaled m e).1 (scaled m e).2 < infinityBits := by
  have hinf : infinityBits = 2047 * 2 ^ 52 := rfl
  have hsign : signBit = 2 ^ 63 := rfl
  have hbits : ∀ k, k = b % 2 ^ 63 → k + (if signBit ≤ b then signBit else 0) = b := by
    intro k hk
    split <;> omega
  unfold ofBits at h
  simp only [Nat.pow_eq] at h
  split at h
  · split at h <;> cases h
  · next hfield =>
    split at h
    · next hzero =>
      cases h
      have heq := nearestBits_scaled (m := b % 2 ^ 52) (e := -1074) (by omega) (by omega)
        (Or.inr rfl)
      have hk : (-1074 + 1074 : Int).toNat * 2 ^ 52 + b % 2 ^ 52 = b % 2 ^ 63 := by omega
      rw [heq]
      refine ⟨?_, by omega⟩
      simpa using hbits _ hk
    · next hzero =>
      cases h
      have heq := nearestBits_scaled (m := 2 ^ 52 + b % 2 ^ 52)
        (e := (b / 2 ^ 52 % 2 ^ 11 : Nat) - 1075) (by omega) (by omega) (by omega)
      have hk : ((b / 2 ^ 52 % 2 ^ 11 : Nat) - 1075 + 1074 : Int).toNat * 2 ^ 52 +
          (2 ^ 52 + b % 2 ^ 52) = b % 2 ^ 63 := by omega
      rw [heq]
      refine ⟨?_, by omega⟩
      simpa using hbits _ hk

/-! ### Ratios past the finite floats -/

theorem infinityBits_le_nearestBits {n d : Nat} (hn : 0 < n) (hd : 0 < d)
    (h : (2 : ℚ) ^ (1024 : Int) ≤ n / d) : infinityBits ≤ nearestBits n d := by
  have hinf : infinityBits = 2047 * 2 ^ 52 := rfl
  obtain ⟨hle, hlt⟩ := zpow_floorLog2_le hn hd
  have hlog : 1024 ≤ floorLog2 n d := by
    have := (zpow_lt_zpow_iff_right₀ one_lt_two).1 (lt_of_le_of_lt h hlt)
    omega
  have hmax : max (floorLog2 n d - 52) (-1074) = floorLog2 n d - 52 := by omega
  -- the significand has its 53 bits
  have hq : 2 ^ 52 ≤ n * Nat.pow 2 (-(floorLog2 n d - 52)).toNat /
      (d * Nat.pow 2 (floorLog2 n d - 52).toNat) := by
    have hneg : (-(floorLog2 n d - 52)).toNat = 0 := by omega
    have hneg' : (-floorLog2 n d).toNat = 0 := by omega
    have hpow : (floorLog2 n d).toNat = 52 + (floorLog2 n d - 52).toNat := by omega
    have hle' := (zpow_le_div_iff hd _).1 hle
    rw [hneg', hpow] at hle'
    simp only [Nat.pow_eq, Nat.pow_add] at hle' ⊢
    rw [hneg, Nat.le_div_iff_mul_le (Nat.mul_pos hd (Nat.pow_pos Nat.two_pos))]
    calc 2 ^ 52 * (d * 2 ^ (floorLog2 n d - 52).toNat)
        = d * (2 ^ 52 * 2 ^ (floorLog2 n d - 52).toNat) := Nat.mul_left_comm _ _ _
      _ ≤ n * 2 ^ 0 := hle'
  have hround := Nat.le_trans hq (div_le_roundHalfEven _ _)
  unfold nearestBits
  rw [if_neg (Nat.pos_iff_ne_zero.1 hn)]
  dsimp only
  rw [hmax]
  simp only [Nat.pow_eq] at hround ⊢
  omega

theorem roundHalfEven_small {n d k : Nat} (hd : 0 < d)
    (h : (n : ℚ) / d < 2 ^ (-((k : Int) + 2))) :
    roundHalfEven (n * Nat.pow 2 k) (d * Nat.pow 2 0) = 0 := by
  have hnot : ¬ d * Nat.pow 2 (-((k : Int) + 2)).toNat ≤ n * Nat.pow 2 (- -((k : Int) + 2)).toNat :=
    fun hle => absurd ((zpow_le_div_iff hd _).2 hle) (not_le_of_gt h)
  have hzero : (-((k : Int) + 2)).toNat = 0 := by omega
  have hexp : (- -((k : Int) + 2)).toNat = k + 2 := by omega
  rw [hzero, hexp] at hnot
  apply roundHalfEven_eq_zero
  simp only [Nat.pow_eq, Nat.pow_add, Nat.pow_zero, Nat.mul_one, ← Nat.mul_assoc] at hnot ⊢
  rw [Nat.mul_assoc]
  omega

theorem nearestBits_eq_zero {n d : Nat} (hd : 0 < d) (h : (n : ℚ) / d < 2 ^ (-1076 : Int)) :
    nearestBits n d = 0 := by
  by_cases hn : n = 0
  · rw [hn, nearestBits_zero]
  · obtain ⟨hle, hlt⟩ := zpow_floorLog2_le (Nat.pos_of_ne_zero hn) hd
    have hlog : floorLog2 n d < -1076 :=
      (zpow_lt_zpow_iff_right₀ one_lt_two).1 (lt_of_le_of_lt hle h)
    have hmax : max (floorLog2 n d - 52) (-1074) = -1074 := by omega
    have hneg : (- -1074 : Int).toNat = 1074 := rfl
    have hzero : (-1074 : Int).toNat = 0 := rfl
    have hround := roundHalfEven_small (k := 1074) hd h
    unfold nearestBits
    rw [if_neg hn]
    dsimp only
    rw [hmax, hneg, hzero, hround]
    rfl

/-! ### Floats -/

/-- A float is the nearest to the ratio that it is. -/
theorem nearest_scaled {x : Float} {negative : Bool} {m : Nat} {e : Int}
    (h : ofFloat x = .finite negative m e) :
    nearest negative (scaled m e).1 (scaled m e).2 = x := by
  obtain ⟨hbits, hlt⟩ := nearestBits_of_ofBits x.toBits.toNat_lt h
  exact floatOfBits_eq (Nat.le_of_lt hlt) hbits.symm

theorem nearest_congr (negative : Bool) {n d n' d' : Nat} (hd : 0 < d) (hd' : 0 < d')
    (h : (n : ℚ) / d = n' / d') : nearest negative n d = nearest negative n' d' := by
  unfold nearest
  rw [nearestBits_congr hd hd' h]

end Binary

namespace Decimal

/-! ## Decimals -/

/-- The magnitude of a decimal. -/
def value (d : Decimal) : ℚ := d.digits * 10 ^ d.exponent

theorem ratio_pos (d : Decimal) : 0 < d.ratio.2 :=
  (Binary.ratio_zpow (by decide) d.digits d.exponent rfl).1

theorem ratio_value (d : Decimal) : (d.ratio.1 : ℚ) / d.ratio.2 = d.value :=
  (Binary.ratio_zpow (by decide) d.digits d.exponent rfl).2

theorem ratio_fst_pos {d : Decimal} (h : d.digits ≠ 0) : 0 < d.ratio.1 := by
  have hpos : 0 < d.digits := Nat.pos_of_ne_zero h
  unfold ratio
  split
  · exact Nat.mul_pos hpos (Nat.pow_pos (by decide))
  · exact hpos

theorem zpow_eight (k : Int) : (8 : ℚ) ^ k = 2 ^ (3 * k) := by
  rw [zpow_mul]
  norm_num

/-- A decimal with a large exponent is past the finite floats. -/
theorem two_zpow_le_value {d : Decimal} (h : d.digits ≠ 0) (he : 400 < d.exponent) :
    (2 : ℚ) ^ (1024 : Int) ≤ d.value := by
  have hdigits : (1 : ℚ) ≤ d.digits := by exact_mod_cast Nat.pos_of_ne_zero h
  calc (2 : ℚ) ^ (1024 : Int) ≤ 2 ^ (3 * d.exponent) :=
        zpow_le_zpow_right₀ one_le_two (by omega)
    _ = 8 ^ d.exponent := (zpow_eight _).symm
    _ ≤ 10 ^ d.exponent := by
        have hnat : d.exponent = (d.exponent.toNat : Int) := by omega
        rw [hnat, zpow_natCast, zpow_natCast]
        exact pow_le_pow_left₀ (by norm_num) (by norm_num) _
    _ ≤ d.digits * 10 ^ d.exponent := le_mul_of_one_le_left (by positivity) hdigits

/-- A decimal with few digits far behind the point rounds to zero. -/
theorem value_lt_two_zpow {d : Decimal} (he : (d.digits.log2 : Int) + 1101 < -3 * d.exponent) :
    d.value < 2 ^ (-1076 : Int) := by
  have hpow : (10 : ℚ) ^ d.exponent ≤ 2 ^ (3 * d.exponent) := by
    have hnat : d.exponent = -((-d.exponent).toNat : Int) := by omega
    rw [← zpow_eight, hnat, zpow_neg, zpow_neg, zpow_natCast, zpow_natCast]
    exact inv_anti₀ (by positivity) (pow_le_pow_left₀ (by norm_num) (by norm_num) _)
  calc d.value < 2 ^ ((d.digits.log2 : Int) + 1) * 10 ^ d.exponent :=
        mul_lt_mul_of_pos_right (Binary.lt_zpow_log2 _) (by positivity)
    _ ≤ 2 ^ ((d.digits.log2 : Int) + 1) * 2 ^ (3 * d.exponent) :=
        mul_le_mul_of_nonneg_left hpow (by positivity)
    _ = 2 ^ ((d.digits.log2 : Int) + 1 + 3 * d.exponent) := (zpow_add₀ two_ne_zero _ _).symm
    _ ≤ 2 ^ (-1076 : Int) := zpow_le_zpow_right₀ one_le_two (by omega)

/-- The short cuts of `toFloat` change nothing. -/
theorem toFloat_eq_nearest (d : Decimal) :
    d.toFloat = Binary.nearest d.negative d.ratio.1 d.ratio.2 := by
  have hvalue := ratio_value d
  unfold toFloat
  split
  · next h =>
    have hzero : d.ratio.1 = 0 := by
      unfold ratio
      split <;> simp [h]
    rw [Binary.nearest, hzero, Binary.nearestBits_zero]
  · next h =>
    split
    · next he =>
      have hle := Binary.infinityBits_le_nearestBits (ratio_fst_pos h) (ratio_pos d)
        (by rw [hvalue]; exact two_zpow_le_value h he)
      unfold Binary.nearest Binary.floatOfBits
      rw [Nat.min_eq_right hle, Nat.min_self]
    · split
      · next he =>
        have hzero := Binary.nearestBits_eq_zero (ratio_pos d)
          (by rw [hvalue]; exact value_lt_two_zpow he)
        rw [Binary.nearest, hzero]
      · rfl

/-- The float of a decimal is a matter of its sign and its value. -/
theorem toFloat_congr {d d' : Decimal} (hs : d.negative = d'.negative) (hv : d.value = d'.value) :
    d.toFloat = d'.toFloat := by
  rw [toFloat_eq_nearest, toFloat_eq_nearest, hs]
  apply Binary.nearest_congr _ (ratio_pos d) (ratio_pos d')
  rw [ratio_value, ratio_value, hv]

/-- A decimal whose value a float is reads as that float. -/
theorem toFloat_eq_of_value {x : Float} {d : Decimal} {m : Nat} {e : Int}
    (h : Binary.ofFloat x = .finite d.negative m e) (hv : d.value = m * 2 ^ e) : d.toFloat = x := by
  rw [toFloat_eq_nearest, ← Binary.nearest_scaled h]
  apply Binary.nearest_congr _ (ratio_pos d) (Binary.scaled_pos m e)
  rw [ratio_value, Binary.scaled_value, hv]

end Decimal

end SmallLisp
