import Mathlib.Data.Nat.Choose.Basic
import Mathlib.Data.Nat.Sqrt
import SmallLisp.Number.Whole
import SmallLisp.Proofs.Number.Order
import SmallLisp.Proofs.Number.Rounding

/-!
The values of the functions on integers.

`IntegerFunction.Gives` says which integer a function gives for which integers, in the terms of
mathematics: factorials, binomial coefficients, falling factorials, roots and divisors.  The functions
compute these values otherwise, products by halves and the root by an iteration, and they refuse
arguments outside their domains or past the limits of size; they give a value exactly where
`IntegerFunction.Gives` has one, and that value (`IntegerFunction.apply_eq_ok_iff`).

A float is taken for an integer where it has an integer's exact value (`Binary.toInt?_eq_some_iff`).
-/

namespace SmallLisp

/-! ## Whole floats -/

namespace Number

theorem rational_inj {p q : ℚ} : rational p = rational q ↔ p = q := by
  unfold rational
  rw [WithBot.coe_inj, WithTop.coe_inj]

end Number

namespace Binary

theorem cast_signed (negative : Bool) (n : Nat) :
    ((signed negative n : Int) : ℚ) = if negative then -(n : ℚ) else n := by
  unfold signed
  split <;> push_cast <;> rfl

/-- A signed magnitude is an integer if the magnitude is that of the integer and the sign fits. -/
theorem cast_signed_mul_eq_iff {negative : Bool} {m : Nat} {e n : Int} :
    (signed negative m : ℚ) * 2 ^ e = n ↔
      (m : ℚ) * 2 ^ e = n.natAbs ∧ signed negative n.natAbs = n := by
  have hpos : (0 : ℚ) ≤ (m : ℚ) * 2 ^ e := by positivity
  rw [cast_signed, Nat.cast_natAbs]
  unfold signed
  cases negative with
  | false =>
    simp only [Bool.false_eq_true, if_false]
    constructor
    · intro h
      have hn : 0 ≤ n := by
        rw [h] at hpos
        exact_mod_cast hpos
      exact ⟨by rw [h, abs_of_nonneg hn], by omega⟩
    · rintro ⟨h, hn⟩
      have hn : 0 ≤ n := by omega
      rw [h, abs_of_nonneg hn]
  | true =>
    simp only [if_true, neg_mul]
    constructor
    · intro h
      have hn : n ≤ 0 := by
        have hle : (n : ℚ) ≤ 0 := by rw [← h]; exact neg_nonpos.2 hpos
        exact_mod_cast hle
      exact ⟨by rw [abs_of_nonpos hn, Int.cast_neg, ← h, neg_neg], by omega⟩
    · rintro ⟨h, hn⟩
      have hn : n ≤ 0 := by omega
      rw [h, abs_of_nonpos hn, Int.cast_neg, neg_neg]

/-- A float is taken for the integer that is its exact value. -/
theorem toInt?_eq_some_iff {b : Binary} {n : Int} :
    b.toInt? = some n ↔ b.value? = some (Number.rational n) := by
  cases b with
  | nan => simp [toInt?, value?]
  | infinite negative =>
    have hbot : (⊥ : WithBot (WithTop ℚ)) ≠ Number.rational n := WithBot.bot_ne_coe
    have htop : (⊤ : WithBot (WithTop ℚ)) ≠ Number.rational n := fun h =>
      WithTop.top_ne_coe (WithBot.coe_inj.1 h)
    cases negative with
    | false => simp [toInt?, value?, htop]
    | true => simp [toInt?, value?, hbot]
  | finite negative m e =>
    rw [value?, Option.some.injEq, Number.rational_inj, cast_signed_mul_eq_iff, scaled_value_eq_iff,
      toInt?]
    split
    · next hmod =>
      rw [Option.some.injEq]
      constructor
      · rintro rfl
        rw [natAbs_signed]
        exact ⟨⟨hmod, rfl⟩, rfl⟩
      · rintro ⟨⟨-, hdiv⟩, hn⟩
        rw [hdiv, hn]
    · next hmod => simp [hmod]

end Binary

/-! ## Products and roots -/

namespace Whole

theorem rangeProduct_eq (a n : Nat) : rangeProduct a n = (a + 1).ascFactorial n := by
  fun_induction rangeProduct a n with
  | case1 a => rfl
  | case2 a => simp [Nat.ascFactorial]
  | case3 a n h0 h1 ih₁ ih₂ =>
    have hhalves : n / 2 + (n - n / 2) = n := by omega
    rw [ih₁, ih₂, Nat.add_right_comm, Nat.ascFactorial_mul_ascFactorial, hhalves]

theorem rangeProduct_zero (n : Nat) : rangeProduct 0 n = n.factorial := by
  rw [rangeProduct_eq, Nat.zero_add, Nat.one_ascFactorial]

theorem rangeProduct_sub {n k : Nat} (h : k ≤ n) : rangeProduct (n - k) k = n.descFactorial k := by
  rw [rangeProduct_eq, ← Nat.add_descFactorial_eq_ascFactorial, Nat.sub_add_cancel h]

/-- The iteration is that of the square root of the library. -/
theorem descend_eq (n r : Nat) : descend n r = Nat.sqrt.iter n r := by
  fun_induction descend n r with
  | case1 r next h ih =>
    rw [ih, Nat.sqrt.iter.eq_1 n r, dif_pos h]
  | case2 r next h =>
    rw [Nat.sqrt.iter.eq_1 n r, dif_neg h]

theorem squareRoot_eq (n : Nat) : squareRoot n = Nat.sqrt n := by
  unfold squareRoot Nat.sqrt
  rw [descend_eq, Nat.one_shiftLeft]
  rfl

/-! ## Divisors and multiples -/

theorem foldl_nonneg (op : Nat → Nat → Nat) (ns : List Int) {g : Int} (hg : 0 ≤ g) :
    0 ≤ ns.foldl (fun g n : Int => ((op g.natAbs n.natAbs : Nat) : Int)) g := by
  induction ns generalizing g with
  | nil => exact hg
  | cons n ns ih => exact ih (Int.natCast_nonneg _)

theorem dvd_foldl_gcd (m g : Int) (ns : List Int) :
    m ∣ ns.foldl (fun g n => (Nat.gcd g.natAbs n.natAbs : Nat)) g ↔ m ∣ g ∧ ∀ n ∈ ns, m ∣ n := by
  induction ns generalizing g with
  | nil => simp
  | cons n ns ih =>
    have hgcd : m ∣ (Nat.gcd g.natAbs n.natAbs : Nat) ↔ m ∣ g ∧ m ∣ n := Int.dvd_coe_gcd_iff
    rw [List.foldl_cons, ih, hgcd, List.forall_mem_cons, and_assoc]

theorem foldl_lcm_dvd (m l : Int) (ns : List Int) :
    (ns.foldl (fun l n => (Nat.lcm l.natAbs n.natAbs : Nat)) l : Int) ∣ m ↔
      l ∣ m ∧ ∀ n ∈ ns, n ∣ m := by
  induction ns generalizing l with
  | nil => simp
  | cons n ns ih =>
    have hlcm : ((Nat.lcm l.natAbs n.natAbs : Nat) : Int) ∣ m ↔ l ∣ m ∧ n ∣ m := by
      rw [Int.natCast_dvd, Nat.lcm_dvd_iff, Int.natAbs_dvd_natAbs, Int.natAbs_dvd_natAbs]
    rw [List.foldl_cons, ih, hlcm, List.forall_mem_cons, and_assoc]

theorem exists_gcd (ns : List Int) : ∃ g : Nat, gcd ns = g ∧ ∀ m : Int, m ∣ g ↔ ∀ n ∈ ns, m ∣ n := by
  obtain ⟨g, hg⟩ := Int.eq_ofNat_of_zero_le (foldl_nonneg Nat.gcd ns (Int.le_refl 0))
  refine ⟨g, hg, fun m => ?_⟩
  rw [← hg, dvd_foldl_gcd]
  simp

theorem exists_lcm (ns : List Int) :
    ∃ l : Nat, lcm ns = l ∧ ∀ m : Int, (l : Int) ∣ m ↔ ∀ n ∈ ns, n ∣ m := by
  obtain ⟨l, hl⟩ := Int.eq_ofNat_of_zero_le (foldl_nonneg Nat.lcm ns Int.one_nonneg)
  refine ⟨l, hl, fun m => ?_⟩
  rw [← hl, foldl_lcm_dvd]
  simp

/-! ## Natural arguments -/

section Natural

variable (n k : Nat)

theorem factorial_natCast :
    factorial n = if sizeLimit < n then .error .factorialTooLarge else .ok n.factorial := by
  unfold factorial
  rw [rangeProduct_zero, Int.toNat_natCast, if_neg (Int.not_lt.2 (Int.natCast_nonneg n))]
  simp only [Int.ofNat_lt]

theorem isqrt_natCast : isqrt n = .ok n.sqrt := by
  unfold isqrt
  rw [squareRoot_eq, Int.toNat_natCast, if_neg (Int.not_lt.2 (Int.natCast_nonneg n))]

theorem perm_natCast :
    perm n k = if k ≤ n ∧ sizeLimit < k then .error .arrangementTooLarge
      else .ok (n.descFactorial k) := by
  unfold perm
  rw [if_neg (Int.not_lt.2 (Int.natCast_nonneg n)), if_neg (Int.not_lt.2 (Int.natCast_nonneg k))]
  by_cases hlt : n < k
  · rw [if_pos (Int.ofNat_lt.2 hlt), if_neg (by omega), Nat.descFactorial_of_lt hlt]
    rfl
  · have hle : k ≤ n := Nat.le_of_not_lt hlt
    have hsub : ((n : Int) - k).toNat = n - k := by omega
    rw [if_neg (by omega), Int.toNat_natCast, hsub, rangeProduct_sub hle]
    simp only [Int.ofNat_lt, hle, true_and]

/-- The smaller of the two ways to choose is computed. -/
theorem comb_natCast :
    comb n k = if k ≤ n ∧ sizeLimit < min k (n - k) then .error .choiceTooLarge
      else .ok (n.choose k) := by
  unfold comb
  rw [if_neg (Int.not_lt.2 (Int.natCast_nonneg n)), if_neg (Int.not_lt.2 (Int.natCast_nonneg k))]
  by_cases hlt : n < k
  · rw [if_pos (Int.ofNat_lt.2 hlt), if_neg (by omega), Nat.choose_eq_zero_of_lt hlt]
    rfl
  · have hle : k ≤ n := Nat.le_of_not_lt hlt
    have hmin : (min (k : Int) (n - k)).toNat = min k (n - k) := by omega
    have hchoose : n.choose (min k (n - k)) = n.choose k := by
      rcases Nat.le_total k (n - k) with h | h
      · rw [Nat.min_eq_left h]
      · rw [Nat.min_eq_right h, Nat.choose_symm hle]
    rw [if_neg (by omega)]
    dsimp only
    rw [hmin, Int.toNat_natCast, rangeProduct_sub (by omega), rangeProduct_zero,
      ← Nat.choose_eq_descFactorial_div_factorial, hchoose]
    simp only [hle, true_and]

end Natural

section Negative

variable {n k : Int}

theorem factorial_of_neg (h : n < 0) : factorial n = .error .factorialOfNegative := by
  unfold factorial
  rw [if_neg (by omega), if_pos h]

theorem exists_of_factorial {r : Int} (h : factorial n = .ok r) :
    ∃ m : Nat, n = m ∧ m ≤ sizeLimit ∧ r = m.factorial := by
  rcases Int.lt_or_le n 0 with hn | hn
  · rw [factorial_of_neg hn] at h
    cases h
  · obtain ⟨m, rfl⟩ := Int.eq_ofNat_of_zero_le hn
    rw [factorial_natCast] at h
    split at h
    · cases h
    · next hle =>
      cases h
      exact ⟨m, rfl, Nat.le_of_not_lt hle, rfl⟩

theorem isqrt_of_neg (h : n < 0) : isqrt n = .error .rootOfNegative := by
  unfold isqrt
  rw [if_pos h]

theorem neg_or_natCast (n k : Int) : (n < 0 ∨ k < 0) ∨ ∃ a b : Nat, n = a ∧ k = b := by
  by_cases hneg : n < 0 ∨ k < 0
  · exact Or.inl hneg
  · exact Or.inr ⟨n.toNat, k.toNat, by omega, by omega⟩

/-- Counts of ways refuse negative numbers before they look at anything else. -/
theorem refused_of_neg (h : n < 0 ∨ k < 0) (e e' : NoResult) (r : Except NoResult Int) :
    ∃ f, (if n < 0 then .error e else if k < 0 then .error e' else r) = .error f := by
  by_cases hn : n < 0
  · exact ⟨e, if_pos hn⟩
  · rw [if_neg hn, if_pos (by omega)]
    exact ⟨e', rfl⟩

theorem perm_of_neg (h : n < 0 ∨ k < 0) : ∃ e, perm n k = .error e :=
  refused_of_neg h _ _ _

theorem comb_of_neg (h : n < 0 ∨ k < 0) : ∃ e, comb n k = .error e :=
  refused_of_neg h _ _ _

end Negative

end Whole

/-! ## Values -/

namespace IntegerFunction

/-- What a function makes of integers.  It refuses too many or too few of them before that. -/
def apply : IntegerFunction → List Int → Except NoResult Int
  | .factorial, [n] => Whole.factorial n
  | .isqrt, [n] => Whole.isqrt n
  | .comb, [n, k] => Whole.comb n k
  | .perm, [n] => Whole.factorial n
  | .perm, [n, k] => Whole.perm n k
  | .gcd, ns => .ok (Whole.gcd ns)
  | .lcm, ns => .ok (Whole.lcm ns)
  | _, _ => .error .domain

/-- The mathematical value of a function, for arguments in its domain that are not too large. -/
inductive Gives : IntegerFunction → List Int → Int → Prop
  | factorial {n : Nat} : n ≤ sizeLimit → Gives .factorial [(n : Int)] n.factorial
  | isqrt {n r : Nat} : r * r ≤ n → n < (r + 1) * (r + 1) → Gives .isqrt [(n : Int)] r
  | comb {n k : Nat} : (k ≤ n → min k (n - k) ≤ sizeLimit) →
      Gives .comb [(n : Int), (k : Int)] (n.choose k)
  | permAll {n : Nat} : n ≤ sizeLimit → Gives .perm [(n : Int)] n.factorial
  | perm {n k : Nat} : (k ≤ n → k ≤ sizeLimit) →
      Gives .perm [(n : Int), (k : Int)] (n.descFactorial k)
  | gcd {ns : List Int} {g : Nat} : (∀ m : Int, m ∣ g ↔ ∀ n ∈ ns, m ∣ n) → Gives .gcd ns g
  | lcm {ns : List Int} {l : Nat} : (∀ m : Int, (l : Int) ∣ m ↔ ∀ n ∈ ns, n ∣ m) → Gives .lcm ns l

open Whole

variable {f : IntegerFunction} {ns : List Int} {r : Int}

/-- What a function gives is its mathematical value. -/
theorem gives_of_apply (h : f.apply ns = .ok r) : f.Gives ns r := by
  unfold apply at h
  split at h
  · next n =>
    obtain ⟨n, rfl, hle, rfl⟩ := exists_of_factorial h
    exact .factorial hle
  · next n =>
    rcases Int.lt_or_le n 0 with hn | hn
    · rw [isqrt_of_neg hn] at h
      cases h
    · obtain ⟨n, rfl⟩ := Int.eq_ofNat_of_zero_le hn
      rw [isqrt_natCast] at h
      cases h
      exact .isqrt (Nat.sqrt_le n) (Nat.lt_succ_sqrt n)
  · next n k =>
    rcases neg_or_natCast n k with hneg | ⟨n, k, rfl, rfl⟩
    · obtain ⟨e, he⟩ := comb_of_neg hneg
      rw [he] at h
      cases h
    · rw [comb_natCast] at h
      split at h
      · cases h
      · next hsize =>
        cases h
        exact .comb fun hle => Nat.le_of_not_lt fun hlt => hsize ⟨hle, hlt⟩
  · next n =>
    obtain ⟨n, rfl, hle, rfl⟩ := exists_of_factorial h
    exact .permAll hle
  · next n k =>
    rcases neg_or_natCast n k with hneg | ⟨n, k, rfl, rfl⟩
    · obtain ⟨e, he⟩ := perm_of_neg hneg
      rw [he] at h
      cases h
    · rw [perm_natCast] at h
      split at h
      · cases h
      · next hsize =>
        cases h
        exact .perm fun hle => Nat.le_of_not_lt fun hlt => hsize ⟨hle, hlt⟩
  · obtain ⟨g, hg, hdvd⟩ := exists_gcd ns
    rw [hg] at h
    cases h
    exact .gcd hdvd
  · obtain ⟨l, hl, hdvd⟩ := exists_lcm ns
    rw [hl] at h
    cases h
    exact .lcm hdvd
  · cases h

/-- A function gives a value wherever it has one. -/
theorem apply_of_gives (h : f.Gives ns r) : f.apply ns = .ok r := by
  cases h with
  | factorial hle => exact (factorial_natCast _).trans (if_neg (Nat.not_lt.2 hle))
  | permAll hle => exact (factorial_natCast _).trans (if_neg (Nat.not_lt.2 hle))
  | @isqrt n r hle hlt =>
    have hroot : r = n.sqrt := Nat.eq_sqrt.2 ⟨hle, hlt⟩
    rw [hroot]
    exact isqrt_natCast n
  | comb hle => exact (comb_natCast _ _).trans (if_neg fun h => Nat.not_lt.2 (hle h.1) h.2)
  | perm hle => exact (perm_natCast _ _).trans (if_neg fun h => Nat.not_lt.2 (hle h.1) h.2)
  | @gcd _ g hdvd =>
    obtain ⟨g', hg', hdvd'⟩ := exists_gcd ns
    have heq : ∀ m : Int, m ∣ g' ↔ m ∣ g := fun m => (hdvd' m).trans (hdvd m).symm
    have hgg : g' = g := Nat.dvd_antisymm (Int.natCast_dvd_natCast.1 ((heq g').1 (Int.dvd_refl _)))
      (Int.natCast_dvd_natCast.1 ((heq g).2 (Int.dvd_refl _)))
    rw [apply, hg', hgg]
  | @lcm _ l hdvd =>
    obtain ⟨l', hl', hdvd'⟩ := exists_lcm ns
    have heq : ∀ m : Int, (l' : Int) ∣ m ↔ (l : Int) ∣ m := fun m => (hdvd' m).trans (hdvd m).symm
    have hll : l' = l := Nat.dvd_antisymm (Int.natCast_dvd_natCast.1 ((heq l).2 (Int.dvd_refl _)))
      (Int.natCast_dvd_natCast.1 ((heq l').1 (Int.dvd_refl _)))
    rw [apply, hl', hll]

theorem apply_eq_ok_iff : f.apply ns = .ok r ↔ f.Gives ns r := ⟨gives_of_apply, apply_of_gives⟩

end IntegerFunction

end SmallLisp
