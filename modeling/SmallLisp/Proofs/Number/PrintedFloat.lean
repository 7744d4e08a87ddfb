import SmallLisp.Number.Basic
import SmallLisp.Proofs.Number.Literal
import SmallLisp.Proofs.Number.Rounding
import SmallLisp.Proofs.Tokens

/-!
The printed text of a finite float denotes that float.

A decimal is written so that its text denotes a decimal with its sign and its value
(`Layout.denotes_renderChars`), and the digits that are chosen for a float read back as that float
(`Decimal.toFloat_shortest`), so the text of a float denotes it (`Number.denotes_printFloat`).
-/

namespace SmallLisp

namespace Decimal

/-! ## The digits of a float -/

theorem value_dropZeros (negative : Bool) (digits : Nat) (e : Int) :
    (Decimal.mk negative (dropZeros digits e).1 (dropZeros digits e).2).value =
      digits * 10 ^ e := by
  fun_induction dropZeros digits e with
  | case1 digits e h ih =>
    have hdigits : (digits : ℚ) = (digits / 10 : Nat) * 10 := by
      have hnat : digits = digits / 10 * 10 := by omega
      exact_mod_cast hnat
    rw [ih, zpow_add₀ (by norm_num), zpow_one, hdigits]
    ring
  | case2 digits e h => rfl

theorem reads_of_if (reads : Nat → Bool) {a k : Nat} {place place' : Int} {r : Option (Nat × Int)}
    (h : (if reads a = true then some (a, place) else r) = some (k, place'))
    (hr : r = some (k, place') → reads k = true ∧ place' = place) :
    reads k = true ∧ place' = place := by
  split at h
  · next ha =>
    cases h
    exact ⟨ha, rfl⟩
  · exact hr h

/-- What a candidate was tested for. -/
theorem readsBack_of_candidate? {bits n d k : Nat} {place place' : Int}
    (h : candidate? bits n d place = some (k, place')) :
    (Decimal.mk false k place').toFloat.toBits.toNat = bits := by
  have hnone : (none : Option (Nat × Int)) = some (k, place') →
      ((Decimal.mk false k place).toFloat.toBits.toNat == bits) = true ∧ place' = place := nofun
  have hreads : ((Decimal.mk false k place).toFloat.toBits.toNat == bits) = true ∧
      place' = place := by
    let reads (digits : Nat) : Bool := (Decimal.mk false digits place).toFloat.toBits.toNat == bits
    unfold candidate? at h
    dsimp only at h
    split at h
    · exact reads_of_if reads h hnone
    · exact reads_of_if reads h fun h => reads_of_if reads h hnone
  rw [hreads.2]
  exact beq_iff_eq.1 hreads.1

theorem value_exact (negative : Bool) (m : Nat) (e : Int) :
    (Decimal.mk negative (exact m e).1 (exact m e).2).value = m * 2 ^ e := by
  unfold exact value
  split
  · next he =>
    have hnat : e = (e.toNat : Int) := by omega
    have hpow : ((2 : ℚ) ^ e) = 2 ^ e.toNat := by
      rw [← zpow_natCast, ← hnat]
    rw [hpow]
    simp
  · next he =>
    have hnat : e = -((-e).toNat : Int) := by omega
    have hpow : ((5 : ℚ) ^ (-e).toNat) * 10 ^ e = 2 ^ e := by
      rw [show (10 : ℚ) = 5 * 2 by norm_num, mul_zpow, ← mul_assoc, ← zpow_natCast,
        ← zpow_add₀ (by norm_num), ← Int.neg_eq_comm.1 hnat.symm, neg_add_cancel, zpow_zero, one_mul]
    simp only [Nat.pow_eq, Nat.cast_mul, Nat.cast_pow, Nat.cast_ofNat]
    rw [mul_assoc, hpow]

/-- Digits that read back as the magnitude of a float read, with its sign, as the float. -/
theorem toFloat_of_readsBack {x : Float} {negative : Bool} {m k : Nat} {e place : Int}
    (h : Binary.ofFloat x = .finite negative m e)
    (hk : (Decimal.mk false k place).toFloat.toBits.toNat =
      Binary.nearestBits (Binary.scaled m e).1 (Binary.scaled m e).2) :
    (Decimal.mk negative k place).toFloat = x := by
  obtain ⟨hbits, hlt⟩ := Binary.nearestBits_of_ofBits x.toBits.toNat_lt h
  rw [toFloat_eq_nearest, Binary.nearest, Binary.toNat_toBits_floatOfBits] at hk
  have hmin : min (Binary.nearestBits (Decimal.mk false k place).ratio.1
      (Decimal.mk false k place).ratio.2) Binary.infinityBits =
      Binary.nearestBits (Binary.scaled m e).1 (Binary.scaled m e).2 := by simpa using hk
  have heq : Binary.nearestBits (Decimal.mk false k place).ratio.1
      (Decimal.mk false k place).ratio.2 =
      Binary.nearestBits (Binary.scaled m e).1 (Binary.scaled m e).2 := by omega
  rw [toFloat_eq_nearest, Binary.nearest]
  apply Binary.floatOfBits_eq
  · exact Nat.le_of_lt (lt_of_eq_of_lt heq hlt)
  · rw [← hbits, ← heq]
    rfl

/-- The digits chosen for a float read back as it. -/
theorem toFloat_shortest {x : Float} {negative : Bool} {m : Nat} {e : Int}
    (h : Binary.ofFloat x = .finite negative m e) : (shortest negative m e).toFloat = x := by
  unfold shortest
  split
  · next hm =>
    apply toFloat_eq_of_value (e := e) h
    simp [value, hm]
  · unfold shortestParts
    dsimp only
    generalize hfound : List.findSome? _ _ = found
    cases found with
    | none =>
      apply toFloat_eq_of_value (e := e) h
      rw [Option.getD_none, value_dropZeros]
      exact value_exact negative m e
    | some parts =>
      obtain ⟨k, place⟩ := parts
      obtain ⟨i, -, hcandidate⟩ := List.exists_of_findSome?_eq_some hfound
      rw [← toFloat_of_readsBack h (readsBack_of_candidate? hcandidate)]
      exact toFloat_congr rfl (value_dropZeros negative k place)

/-! ## The text of a decimal -/

/-- An unsigned text that denotes a number. -/
def Unsigned (body : List Char) (q : ℚ) : Prop :=
  ∃ whole fraction m x e, body = m ++ x ∧ MantissaText whole fraction m ∧ ExponentText e x ∧
    (Text.digitsValue (whole ++ fraction) : ℚ) * 10 ^ (e - fraction.length) = q

theorem Unsigned.denotes {body : List Char} {q : ℚ} (h : Unsigned body q) (negative : Bool) :
    ∃ d, Denotes (if negative then '-' :: body else body) d ∧ d.negative = negative ∧
      d.value = q := by
  obtain ⟨whole, fraction, m, x, e, rfl, hm, hx, hq⟩ := h
  cases negative with
  | false => exact ⟨_, .parts .none hm hx, rfl, hq⟩
  | true => exact ⟨_, .parts .minus hm hx, rfl, hq⟩

/-- Digits alone. -/
theorem unsigned_whole {ds : List Char} (hne : ds ≠ []) (hds : Text.Digits ds) :
    Unsigned ds (Text.digitsValue ds) :=
  ⟨ds, [], ds, [], 0, (List.append_nil ds).symm, .whole hne hds, .none, by simp⟩

end Decimal

namespace Layout

open Decimal Text

/-- The exponent of scientific notation. -/
theorem exponentText_scientific (l : Layout) (place : Int) :
    ExponentText place ('e' :: (if place < 0 then '-' else '+') ::
      (List.replicate (l.exponentWidth - (Nat.toDigits 10 place.natAbs).length) '0' ++
        Nat.toDigits 10 place.natAbs)) := by
  have hpower := toDigits_ne_nil place.natAbs
  have hdigits := (digits_replicate_zero
    (l.exponentWidth - (Nat.toDigits 10 place.natAbs).length)).append (digits_toDigits place.natAbs)
  have hvalue : digitsValue (List.replicate (l.exponentWidth -
      (Nat.toDigits 10 place.natAbs).length) '0' ++ Nat.toDigits 10 place.natAbs) =
      place.natAbs := by
    rw [digitsValue_append, digitsValue_replicate_zero, digitsValue_toDigits]
    omega
  have hnil := List.append_ne_nil_of_right_ne_nil (List.replicate (l.exponentWidth -
    (Nat.toDigits 10 place.natAbs).length) '0') hpower
  split
  · next hneg =>
    have h := ExponentText.power (Or.inl rfl) .minus hnil hdigits
    rwa [hvalue, Binary.signed_natAbs (by simpa using hneg)] at h
  · next hneg =>
    have h := ExponentText.power (Or.inl rfl) .plus hnil hdigits
    rwa [hvalue, Binary.signed_natAbs (by simpa using hneg)] at h

section Body

variable {ds : List Char} (hne : ds ≠ []) (hds : Digits ds)
include hne hds

theorem unsigned_positional (e : Int) : Unsigned (positional ds e) (digitsValue ds * 10 ^ e) := by
  unfold positional
  split
  · next he =>
    -- zeros up to the point, and one after it
    have hzeros := digits_replicate_zero e.toNat
    have hvalue : digitsValue (ds ++ List.replicate e.toNat '0' ++ ['0']) =
        digitsValue ds * 10 ^ e.toNat * 10 := by
      rw [digitsValue_append, digitsValue_append, digitsValue_replicate_zero, List.length_replicate]
      rfl
    refine ⟨ds ++ List.replicate e.toNat '0', ['0'], _, [], 0, ?_,
      .point (by simp [hne]) (hds.append hzeros) (digits_replicate_zero 1), .none, ?_⟩
    · simp
    · have hnat : (10 : ℚ) ^ e = 10 ^ e.toNat := by
        rw [← zpow_natCast, Int.toNat_of_nonneg he]
      have hten : (10 : ℚ) * 10 ^ ((0 : Int) - (1 : Nat)) = 1 := by norm_num
      rw [hvalue, hnat, List.length_singleton, Nat.cast_mul, mul_assoc, Nat.cast_ofNat, hten,
        mul_one]
      push_cast
      rfl
  · next he =>
    dsimp only
    split
    · next hlt =>
      -- the point stands among the digits
      have hlen : (ds.drop (ds.length - (-e).toNat)).length = (-e).toNat := by
        rw [List.length_drop]
        omega
      refine ⟨_, _, _, [], 0, (List.append_nil _).symm, .point ?_ ?_ ?_, .none, ?_⟩
      · intro h0
        have h0 := congrArg List.length h0
        rw [List.length_take, List.length_nil] at h0
        omega
      · exact fun c hc => hds c (List.mem_of_mem_take hc)
      · exact fun c hc => hds c (List.mem_of_mem_drop hc)
      · rw [List.take_append_drop, hlen]
        congr 2
        omega
    · next hge =>
      -- zeros between the point and the digits
      have hzeros := digits_replicate_zero ((-e).toNat - ds.length)
      have hvalue : digitsValue (['0'] ++ (List.replicate ((-e).toNat - ds.length) '0' ++ ds)) =
          digitsValue ds := by
        have hzero : digitsValue ['0'] = 0 := by decide
        rw [digitsValue_append, digitsValue_append, digitsValue_replicate_zero, hzero]
        simp
      refine ⟨['0'], _, _, [], 0, (List.append_nil _).symm,
        .point (by simp) (digits_replicate_zero 1) (hzeros.append hds), .none, ?_⟩
      rw [hvalue, List.length_append, List.length_replicate]
      congr 2
      omega

theorem unsigned_scientific (l : Layout) (e : Int) :
    Unsigned (l.scientific ds e) (digitsValue ds * 10 ^ e) := by
  have hx := exponentText_scientific l (e + ds.length - 1)
  unfold scientific
  match ds, hne, hds with
  | [c], hne, hds =>
    refine ⟨[c], [], _, _, _, rfl, .whole hne hds, hx, ?_⟩
    simp
  | c :: c' :: rest, _, hds =>
    refine ⟨[c], c' :: rest, _, _, _, rfl, .point (by simp) ?_ ?_, hx, ?_⟩
    · exact fun b hb => hds b (by simp_all)
    · exact fun b hb => hds b (List.mem_cons_of_mem _ hb)
    · rw [List.singleton_append]
      congr 2
      simp only [List.length_cons]
      omega

end Body

/-- The text of a decimal denotes one with its sign and its value. -/
theorem denotes_renderChars (l : Layout) (d : Decimal) :
    ∃ d', Denotes (l.renderChars d) d' ∧ d'.negative = d.negative ∧ d'.value = d.value := by
  have hne := toDigits_ne_nil d.digits
  have hds := digits_toDigits d.digits
  have hvalue : (digitsValue (Nat.toDigits 10 d.digits) : ℚ) * 10 ^ d.exponent = d.value := by
    rw [digitsValue_toDigits]
    rfl
  rw [← hvalue]
  unfold renderChars
  apply Unsigned.denotes
  split
  · exact unsigned_positional hne hds d.exponent
  · exact unsigned_scientific hne hds l d.exponent

end Layout

/-! ## The text of a float -/

namespace Number

open Decimal

theorem isNegative_of_ofFloat {x : Float} {negative : Bool} {m : Nat} {e : Int}
    (h : Binary.ofFloat x = .finite negative m e) : Binary.isNegative x = negative := by
  unfold Binary.ofFloat Binary.ofBits at h
  dsimp only at h
  split at h
  · split at h <;> cases h
  · split at h
    · cases h
      rfl
    · cases h
      rfl

theorem denotes_describeFloat {x : Float} {negative : Bool} {m : Nat} {e : Int}
    (h : Binary.ofFloat x = .finite negative m e) :
    ∃ d, Denotes (describeFloat x).toList d ∧ d.toFloat = x := by
  obtain ⟨d, hd, hsign, hvalue⟩ := Layout.standard.denotes_renderChars (shortest negative m e)
  have htext : (describeFloat x).toList = Layout.standard.renderChars (shortest negative m e) := by
    unfold describeFloat
    rw [h]
    exact String.toList_ofList
  refine ⟨d, ?_, ?_⟩
  · rw [htext]
    exact hd
  · rw [← toFloat_shortest h]
    exact toFloat_congr hsign hvalue

/-- The value of a whole float. -/
theorem natAbs_of_toInt? {negative : Bool} {m : Nat} {e n : Int}
    (h : (Binary.finite negative m e).toInt? = some n) : (n.natAbs : ℚ) = m * 2 ^ e := by
  unfold Binary.toInt? at h
  dsimp only at h
  split at h
  · next hmod =>
    cases h
    rw [Binary.natAbs_signed]
    exact (Binary.scaled_value_eq_iff.2 ⟨hmod, rfl⟩).symm
  · cases h

/-- The text of a finite float denotes it. -/
theorem denotes_printFloat {x : Float} {negative : Bool} {m : Nat} {e : Int}
    (h : Binary.ofFloat x = .finite negative m e) :
    ∃ d, Denotes (printFloat x).toList d ∧ d.toFloat = x := by
  unfold printFloat
  split
  · next n hn =>
    split
    · -- a whole number: its digits
      have hds := Text.digits_toDigits n.natAbs
      obtain ⟨d, hd, hsign, hvalue⟩ :=
        (unsigned_whole (Text.toDigits_ne_nil n.natAbs) hds).denotes (Binary.isNegative x)
      rw [h] at hn
      refine ⟨d, ?_, ?_⟩
      · have htext : ((if Binary.isNegative x = true then "-" else "") ++
            Text.decimal n.natAbs).toList = if Binary.isNegative x = true then
              '-' :: Nat.toDigits 10 n.natAbs else Nat.toDigits 10 n.natAbs := by
          unfold Text.decimal
          rw [String.toList_append, String.toList_ofList]
          split <;> rfl
        rw [htext]
        exact hd
      · apply toFloat_eq_of_value (m := m) (e := e)
        · rw [hsign, isNegative_of_ofFloat h, h]
        · rw [hvalue, Text.digitsValue_toDigits, natAbs_of_toInt? hn]
    · exact denotes_describeFloat h
  · exact denotes_describeFloat h

end Number

/-! ## Texts of decimals are words -/

theorem Text.Digits.isPlain {ds : List Char} (h : Text.Digits ds) :
    ∀ c ∈ ds, Token.isPlain c = true :=
  fun c hc => Token.isPlain_of_isDigit (h c hc)

namespace Decimal

theorem SignText.isPlain {negative : Bool} {s : List Char} (h : SignText negative s) :
    ∀ c ∈ s, Token.isPlain c = true := by
  intro c hc
  cases h with
  | none => cases hc
  | plus =>
    rw [List.mem_singleton.1 hc]
    decide
  | minus =>
    rw [List.mem_singleton.1 hc]
    decide

theorem MantissaText.word {whole fraction m : List Char} (h : MantissaText whole fraction m) :
    Token.Word m := by
  have hpoint : Token.isPlain '.' = true := by decide
  cases h with
  | whole hne hds => exact ⟨hne, hds.isPlain⟩
  | point _ hds hfs =>
    refine ⟨by simp, fun c hc => ?_⟩
    rcases List.mem_append.1 hc with hc | hc
    · exact hds.isPlain c hc
    · rcases List.mem_cons.1 hc with rfl | hc
      · exact hpoint
      · exact hfs.isPlain c hc
  | fraction _ hfs =>
    refine ⟨by simp, fun c hc => ?_⟩
    rcases List.mem_cons.1 hc with rfl | hc
    · exact hpoint
    · exact hfs.isPlain c hc

theorem ExponentText.isPlain {e : Int} {x : List Char} (h : ExponentText e x) :
    ∀ c ∈ x, Token.isPlain c = true := by
  cases h with
  | none => exact fun _ hc => by cases hc
  | power hletter hs _ hds =>
    intro c hc
    rcases List.mem_cons.1 hc with rfl | hc
    · rcases hletter with rfl | rfl <;> decide
    · rcases List.mem_append.1 hc with hc | hc
      · exact hs.isPlain c hc
      · exact hds.isPlain c hc

theorem Denotes.word {cs : List Char} {d : Decimal} (h : Denotes cs d) : Token.Word cs := by
  cases h with
  | parts hs hm hx =>
    refine ⟨by simp [hm.word.1], fun c hc => ?_⟩
    rcases List.mem_append.1 hc with hc | hc
    · exact hs.isPlain c hc
    · rcases List.mem_append.1 hc with hc | hc
      · exact hm.word.2 c hc
      · exact hx.isPlain c hc

end Decimal

end SmallLisp
