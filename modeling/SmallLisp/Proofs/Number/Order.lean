import Mathlib.Algebra.Order.Field.Power
import Mathlib.Algebra.Order.Field.Rat
import Mathlib.Order.WithBot
import SmallLisp.Number.Basic

/-!
The order of numbers is that of their exact values.

A number that is not a NaN has an exact value, a rational number or an end of the line
(`Number.value?`): an integer is its own value and a float that of its parts
(`Number.value?_integer`, `Number.value?_float`).  Comparison brings two such values to a common
exponent and so compares the values themselves, whatever the kinds of the numbers are
(`Number.compare?_eq`).
-/

namespace SmallLisp

/-! ## Exact values -/

namespace Number

/-- The value that a place stands for. -/
def Place.value : Place → WithBot (WithTop ℚ)
  | .bottom => ⊥
  | .point mantissa exponent => ((mantissa * 2 ^ exponent : ℚ) : WithTop ℚ)
  | .top => (⊤ : WithTop ℚ)

/-- The exact value of a number; a NaN has none. -/
def value? (a : Number) : Option (WithBot (WithTop ℚ)) := a.place?.map Place.value

/-- A rational number among the exact values. -/
def rational (q : ℚ) : WithBot (WithTop ℚ) := (q : WithTop ℚ)

end Number

/-- The exact value of a float by its parts. -/
def Binary.value? : Binary → Option (WithBot (WithTop ℚ))
  | .nan => none
  | .infinite negative => some (if negative then ⊥ else (⊤ : WithTop ℚ))
  | .finite negative significand exponent =>
    some (Number.rational (signed negative significand * 2 ^ exponent))

namespace Number

theorem value?_integer (n : Int) : (integer n).value? = some (rational n) := by
  show some (rational (n * 2 ^ (0 : Int))) = some (rational n)
  rw [zpow_zero, mul_one]

theorem value?_float (x : Double) : (float x).value? = (Binary.ofFloat x.toFloat).value? := by
  simp only [value?, place?]
  cases Binary.ofFloat x.toFloat with
  | nan => rfl
  | infinite negative => cases negative <;> rfl
  | finite negative significand exponent => rfl

/-! ## Comparison -/

theorem scaled_eq (a : Int) {i low : Int} (h : low ≤ i) :
    ((a * (Nat.pow 2 (i - low).toNat : Nat) : Int) : ℚ) * 2 ^ low = a * 2 ^ i := by
  have hpow : (2 : ℚ) ^ i = 2 ^ (i - low).toNat * 2 ^ low := by
    rw [← zpow_natCast, ← zpow_add₀ two_ne_zero]
    congr 1
    omega
  rw [hpow, Nat.pow_eq]
  push_cast
  exact mul_assoc _ _ _

/-- To compare at the smaller exponent is to compare the values. -/
theorem compareScaled_eq (a i b j : Int) :
    compareScaled a i b j = cmp ((a : ℚ) * 2 ^ i) (b * 2 ^ j) := by
  have hpos : (0 : ℚ) < 2 ^ min i j := zpow_pos two_pos _
  have hmono : StrictMono fun n : Int => (n : ℚ) * 2 ^ min i j := by
    intro m n hmn
    exact mul_lt_mul_of_pos_right (Int.cast_lt.2 hmn) hpos
  rw [← scaled_eq a (min_le_left i j), ← scaled_eq b (min_le_right i j), hmono.cmp_map_eq,
    cmp_eq_compare]
  rfl

theorem Place.compare_eq (p q : Place) : p.compare q = cmp p.value q.value := by
  cases p with
  | bottom =>
    cases q with
    | bottom => exact (cmp_self_eq_eq _).symm
    | point b j => exact (cmp_eq_lt_iff _ _).2 (WithBot.bot_lt_coe _) |>.symm
    | top => exact (cmp_eq_lt_iff _ _).2 (WithBot.bot_lt_coe _) |>.symm
  | point a i =>
    cases q with
    | bottom => exact (cmp_eq_gt_iff _ _).2 (WithBot.bot_lt_coe _) |>.symm
    | point b j =>
      have hmono : StrictMono fun x : ℚ => ((x : WithTop ℚ) : WithBot (WithTop ℚ)) :=
        WithBot.coe_strictMono.comp WithTop.coe_strictMono
      exact (compareScaled_eq a i b j).trans (hmono.cmp_map_eq _ _).symm
    | top => exact (cmp_eq_lt_iff _ _).2 (WithBot.coe_lt_coe.2 (WithTop.coe_lt_top _)) |>.symm
  | top =>
    cases q with
    | bottom => exact (cmp_eq_gt_iff _ _).2 (WithBot.bot_lt_coe _) |>.symm
    | point b j => exact (cmp_eq_gt_iff _ _).2 (WithBot.coe_lt_coe.2 (WithTop.coe_lt_top _)) |>.symm
    | top => exact (cmp_self_eq_eq _).symm

theorem compare?_eq (a b : Number) :
    compare? a b = match a.value?, b.value? with
      | some p, some q => some (cmp p q)
      | _, _ => none := by
  unfold compare? value?
  cases a.place? with
  | none => rfl
  | some p =>
    cases b.place? with
    | none => rfl
    | some q => exact congrArg some (p.compare_eq q)

theorem value?_eq_none_iff (a : Number) : a.value? = none ↔ a.isNaN = true := by
  rw [value?, Option.map_eq_none_iff, isNaN, Option.isNone_iff_eq_none]

theorem exists_value {a : Number} (h : a.isNaN = false) : ∃ p, a.value? = some p := by
  cases ha : a.value? with
  | none => rw [(value?_eq_none_iff a).1 ha] at h; cases h
  | some p => exact ⟨p, rfl⟩

/-- Numbers are equal if they have one exact value. -/
theorem holds_equal_iff {a b : Number} :
    holds .equal a b = true ↔ ∃ q, a.value? = some q ∧ b.value? = some q := by
  unfold holds
  rw [compare?_eq]
  cases a.value? with
  | none => simp
  | some p =>
    cases b.value? with
    | none => simp
    | some q =>
      show (cmp p q == .eq) = true ↔ _
      rw [beq_iff_eq, cmp_eq_eq_iff]
      constructor
      · rintro rfl
        exact ⟨p, rfl, rfl⟩
      · rintro ⟨_, hp, hq⟩
        exact (Option.some.inj hp).trans (Option.some.inj hq).symm

theorem holds_equal_symm {a b : Number} (h : holds .equal a b = true) : holds .equal b a = true := by
  obtain ⟨q, ha, hb⟩ := holds_equal_iff.1 h
  exact holds_equal_iff.2 ⟨q, hb, ha⟩

theorem holds_equal_trans {a b c : Number} (hab : holds .equal a b = true)
    (hbc : holds .equal b c = true) : holds .equal a c = true := by
  obtain ⟨p, ha, hb⟩ := holds_equal_iff.1 hab
  obtain ⟨q, hb', hc⟩ := holds_equal_iff.1 hbc
  rw [hb] at hb'
  cases hb'
  exact holds_equal_iff.2 ⟨p, ha, hc⟩

/-- A NaN equals nothing, not even itself. -/
theorem holds_equal_self {a : Number} : holds .equal a a = true ↔ ¬ a.isNaN = true := by
  rw [holds_equal_iff, ← value?_eq_none_iff]
  cases a.value? <;> simp

end Number

end SmallLisp
