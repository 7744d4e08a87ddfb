import Mathlib.Computability.Language
import Mathlib.Data.Nat.Digits.Defs
import SmallLisp.Datum.Basic
import SmallLisp.Proofs.Number.Literal
import SmallLisp.Proofs.Number.Rounding

/-!
Which atoms are numbers, and which numbers they are.

`Pattern.number` is the pattern of number texts as a language, with its optional parts and alternatives.
A text is in it exactly if it has a sign, a mantissa and an exponent in the sense of `Decimal.Denotes`
(`Pattern.mem_number_iff`), so the reader, which goes through a text once and never back, accepts
exactly this language.  However a text is cut into these three, what they stand for is the number that is
rounded (`Datum.atom_of_expresses`).
-/

namespace SmallLisp

open Text

/-! ## The pattern -/

namespace Pattern

open Computability Decimal

/-- One character of a kind. -/
def one (kind : Char → Bool) : Language Char := {w | ∃ c, kind c = true ∧ w = [c]}

def sign : Language Char := one fun c => c = '+' || c = '-'

def point : Language Char := one fun c => c = '.'

def letter : Language Char := one fun c => c = 'e' || c = 'E'

def digit : Language Char := one isDigit

/-- Digits with a point after or between them, or none; or digits after a point. -/
def mantissa : Language Char :=
  digit * digit∗ * (1 + point * digit∗) + point * (digit * digit∗)

def exponent : Language Char := 1 + letter * (1 + sign) * (digit * digit∗)

def number : Language Char := (1 + sign) * mantissa * exponent

variable {w : List Char}

theorem mem_one_char {c : Char} : w ∈ one (fun a => a = c) ↔ w = [c] := by
  constructor
  · rintro ⟨a, ha, rfl⟩
    rw [of_decide_eq_true ha]
  · rintro rfl
    exact ⟨c, decide_eq_true rfl, rfl⟩

theorem mem_one_or {a b : Char} :
    w ∈ one (fun c => c = a || c = b) ↔ w = [a] ∨ w = [b] := by
  constructor
  · rintro ⟨c, hc, rfl⟩
    simpa using hc
  · rintro (rfl | rfl)
    · exact ⟨a, by simp, rfl⟩
    · exact ⟨b, by simp, rfl⟩

theorem mem_digit_kstar : w ∈ digit∗ ↔ Digits w := by
  rw [Language.mem_kstar]
  constructor
  · rintro ⟨ws, rfl, hws⟩ c hc
    obtain ⟨v, hv, hcv⟩ := List.mem_flatten.1 hc
    obtain ⟨a, ha, rfl⟩ := hws v hv
    rw [List.mem_singleton.1 hcv]
    exact ha
  · intro h
    refine ⟨w.map fun c => [c], by simp [← List.flatMap_def], fun v hv => ?_⟩
    obtain ⟨c, hc, rfl⟩ := List.mem_map.1 hv
    exact ⟨c, h c hc, rfl⟩

theorem mem_digits : w ∈ digit * digit∗ ↔ w ≠ [] ∧ Digits w := by
  rw [Language.mem_mul]
  constructor
  · rintro ⟨u, ⟨c, hc, rfl⟩, v, hv, rfl⟩
    refine ⟨by simp, Digits.append ?_ (mem_digit_kstar.1 hv)⟩
    intro a ha
    rw [List.mem_singleton.1 ha]
    exact hc
  · rintro ⟨hne, hw⟩
    cases w with
    | nil => exact absurd rfl hne
    | cons c w =>
      exact ⟨[c], ⟨c, hw c (by simp), rfl⟩, w, mem_digit_kstar.2 fun a ha => hw a (by simp [ha]), rfl⟩

theorem mem_sign_iff : w ∈ 1 + sign ↔ ∃ negative, SignText negative w := by
  rw [Language.mem_add, Language.mem_one, sign, mem_one_or]
  constructor
  · rintro (rfl | rfl | rfl)
    · exact ⟨_, .none⟩
    · exact ⟨_, .plus⟩
    · exact ⟨_, .minus⟩
  · rintro ⟨_, _ | _ | _⟩
    · exact Or.inl rfl
    · exact Or.inr (Or.inl rfl)
    · exact Or.inr (Or.inr rfl)

theorem mem_mantissa_iff : w ∈ mantissa ↔ ∃ whole fraction, MantissaText whole fraction w := by
  unfold mantissa
  rw [Language.mem_add]
  constructor
  · rintro (⟨ds, hds, tail, htail, rfl⟩ | ⟨p, hp, fs, hfs, rfl⟩)
    · obtain ⟨hne, hds⟩ := mem_digits.1 hds
      rcases htail with htail | ⟨p, hp, fs, hfs, rfl⟩
      · rw [(Language.mem_one tail).1 htail]
        exact ⟨ds, [], by simpa using MantissaText.whole hne hds⟩
      · rw [mem_one_char.1 hp]
        exact ⟨ds, fs, .point hne hds (mem_digit_kstar.1 hfs)⟩
    · obtain ⟨hne, hfs⟩ := mem_digits.1 hfs
      rw [mem_one_char.1 hp]
      exact ⟨[], fs, .fraction hne hfs⟩
  · rintro ⟨whole, fraction, h⟩
    have hpoint : ['.'] ∈ point := mem_one_char.2 rfl
    cases h with
    | whole hne hds =>
      refine Or.inl ⟨w, mem_digits.2 ⟨hne, hds⟩, [], Or.inl rfl, List.append_nil w⟩
    | point hne hds hfs =>
      exact Or.inl (Language.append_mem_mul (mem_digits.2 ⟨hne, hds⟩)
        (Or.inr (Language.append_mem_mul hpoint (mem_digit_kstar.2 hfs))))
    | fraction hne hfs => exact Or.inr (Language.append_mem_mul hpoint (mem_digits.2 ⟨hne, hfs⟩))

theorem mem_exponent_iff : w ∈ exponent ↔ ∃ e, ExponentText e w := by
  unfold exponent
  rw [Language.mem_add]
  constructor
  · rintro (h | ⟨u, ⟨c, hc, s, hs, rfl⟩, ds, hds, rfl⟩)
    · rw [(Language.mem_one w).1 h]
      exact ⟨0, .none⟩
    · obtain ⟨hne, hds⟩ := mem_digits.1 hds
      obtain ⟨negative, hs⟩ := mem_sign_iff.1 hs
      rcases mem_one_or.1 hc with rfl | rfl
      · exact ⟨_, .power (Or.inl rfl) hs hne hds⟩
      · exact ⟨_, .power (Or.inr rfl) hs hne hds⟩
  · rintro ⟨e, h⟩
    cases h with
    | none => exact Or.inl rfl
    | @power c negative s ds hc hs hne hds =>
      have hletter : [c] ∈ letter := mem_one_or.2 (by simpa using hc)
      exact Or.inr (Language.append_mem_mul
        (Language.append_mem_mul hletter (mem_sign_iff.2 ⟨negative, hs⟩)) (mem_digits.2 ⟨hne, hds⟩))

/-- The texts in the pattern are those that denote a decimal. -/
theorem mem_number_iff : w ∈ number ↔ ∃ d, Denotes w d := by
  unfold number
  constructor
  · rintro ⟨u, ⟨s, hs, m, hm, rfl⟩, x, hx, rfl⟩
    obtain ⟨negative, hs⟩ := mem_sign_iff.1 hs
    obtain ⟨whole, fraction, hm⟩ := mem_mantissa_iff.1 hm
    obtain ⟨e, hx⟩ := mem_exponent_iff.1 hx
    have htext := Denotes.parts hs hm hx
    rw [← List.append_assoc] at htext
    exact ⟨_, htext⟩
  · rintro ⟨d, hs, hm, hx⟩
    rw [← List.append_assoc]
    exact Language.append_mem_mul (Language.append_mem_mul (mem_sign_iff.2 ⟨_, hs⟩)
      (mem_mantissa_iff.2 ⟨_, _, hm⟩)) (mem_exponent_iff.2 ⟨_, hx⟩)

end Pattern

/-! ## What a text stands for -/

namespace Decimal

/-- A text stands for a number, given by its sign and its magnitude. -/
inductive Expresses : List Char → Bool → ℚ → Prop
  | parts {negative : Bool} {s whole fraction m x : List Char} {e : Int} : SignText negative s →
      MantissaText whole fraction m → ExponentText e x →
      Expresses (s ++ (m ++ x)) negative
        ((digitsValue whole + digitsValue fraction / 10 ^ fraction.length) * 10 ^ e)

theorem value_mk (negative : Bool) (whole fraction : List Char) (e : Int) :
    value ⟨negative, digitsValue (whole ++ fraction), e - fraction.length⟩ =
      (digitsValue whole + digitsValue fraction / 10 ^ fraction.length) * 10 ^ e := by
  unfold value
  rw [digitsValue_append, zpow_sub₀ (by norm_num), zpow_natCast]
  push_cast
  field_simp

theorem expresses_iff {w : List Char} {negative : Bool} {q : ℚ} :
    Expresses w negative q ↔ ∃ d, Denotes w d ∧ d.negative = negative ∧ d.value = q := by
  constructor
  · rintro ⟨hs, hm, hx⟩
    exact ⟨_, .parts hs hm hx, rfl, value_mk _ _ _ _⟩
  · rintro ⟨d, ⟨hs, hm, hx⟩, rfl, rfl⟩
    rw [value_mk]
    exact .parts hs hm hx

end Decimal

namespace Text

theorem digitsValue_eq_ofDigits (ds : List Char) :
    digitsValue ds = Nat.ofDigits 10 (ds.reverse.map fun c => (digit? c).getD 0) := by
  induction ds with
  | nil => rfl
  | cons c ds ih =>
    rw [← List.singleton_append, digitsValue_append, ih, List.reverse_append, List.map_append,
      Nat.ofDigits_append]
    simp [digitsValue]
    ring

/-! ### Digits of one script -/

/-- A digit of any script as one of `0` to `9`; other characters stay. -/
def asciiDigit (c : Char) : Char := ((digit? c).map Nat.digitChar).getD c

theorem digit?_lt {c : Char} {k : Nat} (h : digit? c = some k) : k < 10 := by
  obtain ⟨z, hz, rfl⟩ := Option.map_eq_some_iff.1 h
  have hrange := List.find?_some hz
  simp only [Bool.and_eq_true, decide_eq_true_eq] at hrange
  omega

@[simp] theorem digit?_asciiDigit (c : Char) : digit? (asciiDigit c) = digit? c := by
  unfold asciiDigit
  cases h : digit? c with
  | none => exact h
  | some k => exact digit?_digitChar (digit?_lt h)

theorem Digits.map_ascii {ds : List Char} (h : Digits ds) : Digits (ds.map asciiDigit) := by
  intro c hc
  obtain ⟨a, ha, rfl⟩ := List.mem_map.1 hc
  rw [isDigit, digit?_asciiDigit]
  exact h a ha

theorem digitsValue_map_ascii (ds : List Char) : digitsValue (ds.map asciiDigit) = digitsValue ds := by
  unfold digitsValue
  rw [List.foldl_map]
  simp only [digit?_asciiDigit]

end Text

namespace Decimal

theorem SignText.map_ascii {negative : Bool} {s : List Char} (h : SignText negative s) :
    s.map asciiDigit = s := by
  cases h with
  | none => rfl
  | plus => decide
  | minus => decide

theorem MantissaText.map_ascii {whole fraction m : List Char} (h : MantissaText whole fraction m) :
    MantissaText (whole.map asciiDigit) (fraction.map asciiDigit) (m.map asciiDigit) := by
  have hpoint : asciiDigit '.' = '.' := by decide
  cases h with
  | whole hne hds => exact .whole (by simpa using hne) hds.map_ascii
  | point hne hds hfs =>
    rw [List.map_append, List.map_cons, hpoint]
    exact .point (by simpa using hne) hds.map_ascii hfs.map_ascii
  | fraction hne hfs =>
    rw [List.map_cons, hpoint]
    exact .fraction (by simpa using hne) hfs.map_ascii

theorem ExponentText.map_ascii {e : Int} {x : List Char} (h : ExponentText e x) :
    ExponentText e (x.map asciiDigit) := by
  cases h with
  | none => exact .none
  | @power c negative s ds hc hs hne hds =>
    have hletter : asciiDigit c = c := by rcases hc with rfl | rfl <;> decide
    rw [List.map_cons, List.map_append, hs.map_ascii, hletter, ← digitsValue_map_ascii]
    exact .power hc hs (by simpa using hne) hds.map_ascii

/-- A text stands for the same with digits of one script in place of its own. -/
theorem Denotes.map_ascii {w : List Char} {d : Decimal} (h : Denotes w d) :
    Denotes (w.map asciiDigit) d := by
  obtain ⟨hs, hm, hx⟩ := h
  have htext := Denotes.parts hs hm.map_ascii hx.map_ascii
  rw [List.length_map, ← List.map_append, ← List.map_append, digitsValue_map_ascii] at htext
  rwa [List.map_append, hs.map_ascii]

end Decimal

/-! ## Atoms -/

namespace Datum

open Decimal

variable {t : String}

theorem atom_of_denotes {d : Decimal} (h : Denotes t.toList d) : atom t = .number d.toFloat := by
  unfold atom
  rw [ofChars?_of_denotes h]

theorem atom_of_not_mem (h : t.toList ∉ Pattern.number) : atom t = .symbol t := by
  have hnone : ofChars? t.toList = none :=
    Option.eq_none_iff_forall_ne_some.2 fun d hd => h (Pattern.mem_number_iff.2 ⟨d, denotes_of_ofChars? hd⟩)
  unfold atom
  rw [hnone]

/-- An atom that stands for a number is rounded from it, as a fraction of any form. -/
theorem atom_of_expresses {negative : Bool} {q : ℚ} (h : Expresses t.toList negative q) {n d : Nat}
    (hd : 0 < d) (hq : (n : ℚ) / d = q) : atom t = .number (Binary.nearest negative n d) := by
  obtain ⟨decimal, htext, rfl, rfl⟩ := expresses_iff.1 h
  rw [atom_of_denotes htext, toFloat_eq_nearest]
  rw [Binary.nearest_congr _ (ratio_pos decimal) hd ((ratio_value decimal).trans hq.symm)]

end Datum

open Decimal Datum in
/-- An atom is a number exactly if its text is in the pattern; any other atom is the symbol with its
text for a name.  The text of a number stands for a sign and a magnitude, which is what is rounded, and
it may as well be written with the digits `0` to `9`. -/
theorem atom_follows_pattern (t : String) :
    ((∃ x, atom t = .number x) ↔ t.toList ∈ Pattern.number) ∧
    (t.toList ∉ Pattern.number → atom t = .symbol t) ∧
    (t.toList ∈ Pattern.number →
      (∃ negative q, Expresses t.toList negative q) ∧
      (∀ negative q, Expresses t.toList negative q → ∀ n d : Nat, 0 < d → (n : ℚ) / d = q →
        atom t = .number (Binary.nearest negative n d)) ∧
      atom (String.ofList (t.toList.map asciiDigit)) = atom t) ∧
    ∀ ds, digitsValue ds = Nat.ofDigits 10 (ds.reverse.map fun c => (digit? c).getD 0) := by
  refine ⟨⟨?_, ?_⟩, atom_of_not_mem, ?_, digitsValue_eq_ofDigits⟩
  · rintro ⟨x, hx⟩
    by_contra hnot
    rw [atom_of_not_mem hnot] at hx
    cases hx
  · intro hmem
    obtain ⟨d, hd⟩ := Pattern.mem_number_iff.1 hmem
    exact ⟨_, atom_of_denotes hd⟩
  · intro hmem
    obtain ⟨d, hd⟩ := Pattern.mem_number_iff.1 hmem
    have hascii : atom (String.ofList (t.toList.map asciiDigit)) = .number d.toFloat :=
      atom_of_denotes (by rw [String.toList_ofList]; exact hd.map_ascii)
    exact ⟨⟨_, _, expresses_iff.2 ⟨d, hd, rfl, rfl⟩⟩, fun _ _ h _ _ => atom_of_expresses h,
      hascii.trans (atom_of_denotes hd).symm⟩

open Decimal Datum in
/-- Minus three and a half times ten, the three an Arabic-Indic digit; and a sign with a point. -/
theorem atom_follows_pattern_scripts :
    "-٣.5e+1".toList ∈ Pattern.number ∧ Expresses "-٣.5e+1".toList true 35 ∧
      atom "-٣.5e+1" = .number (Binary.nearest true 35 1) ∧ atom "-3.5e+1" = atom "-٣.5e+1" ∧
      "+.".toList ∉ Pattern.number ∧ atom "+." = .symbol "+." := by
  have hdenotes : Denotes "-٣.5e+1".toList ⟨true, 35, 0⟩ := denotes_of_ofChars? (by decide +kernel)
  have hmem := Pattern.mem_number_iff.2 ⟨_, hdenotes⟩
  have hnot : "+.".toList ∉ Pattern.number := by
    intro h
    obtain ⟨d, hd⟩ := Pattern.mem_number_iff.1 h
    have hnone : ofChars? "+.".toList = none := by decide +kernel
    rw [ofChars?_of_denotes hd] at hnone
    cases hnone
  have hexpresses : Expresses "-٣.5e+1".toList true 35 :=
    expresses_iff.2 ⟨_, hdenotes, rfl, by norm_num [value]⟩
  obtain ⟨-, hround, hascii⟩ := (atom_follows_pattern "-٣.5e+1").2.2.1 hmem
  have hdigits : String.ofList ("-٣.5e+1".toList.map asciiDigit) = "-3.5e+1" := by decide +kernel
  rw [hdigits] at hascii
  exact ⟨hmem, hexpresses, hround true 35 hexpresses 35 1 (by decide) (by norm_num), hascii, hnot,
    (atom_follows_pattern "+.").2.1 hnot⟩

end SmallLisp
