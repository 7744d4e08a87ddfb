import Mathlib.Tactic.IntervalCases
import Mathlib.Tactic.Ring
import SmallLisp.Number.Decimal
import SmallLisp.Text.Blank

/-!
The texts of decimals.

`Decimal.Denotes` is their grammar: an optional sign, digits with an optional point among or next to
them, an optional exponent; part by part it says which decimal a text denotes.  `Decimal.ofChars?`
is that relation (`Decimal.ofChars?_eq_some_iff`).
-/

namespace SmallLisp

namespace Text

/-! ## Digits -/

/-- A run of digits. -/
def Digits (cs : List Char) : Prop := ∀ c ∈ cs, isDigit c = true

theorem Digits.append {cs ds : List Char} (hc : Digits cs) (hd : Digits ds) : Digits (cs ++ ds) := by
  intro c h
  rcases List.mem_append.1 h with h | h
  · exact hc c h
  · exact hd c h

theorem digit?_digitChar {k : Nat} (h : k < 10) : digit? k.digitChar = some k := by
  interval_cases k <;> decide

theorem digits_toDigits (n : Nat) : Digits (Nat.toDigits 10 n) := by
  induction n using Nat.strongRecOn with
  | ind n ih =>
    have hdigit : ∀ k, k < 10 → Digits [k.digitChar] := by
      intro k hk c hc
      rw [List.mem_singleton.1 hc, isDigit, digit?_digitChar hk]
      rfl
    rw [Nat.toDigits_eq_if (by decide)]
    split
    · next h => exact hdigit n h
    · exact (ih (n / 10) (by omega)).append (hdigit _ (by omega))

theorem digits_replicate_zero (k : Nat) : Digits (List.replicate k '0') := by
  intro c hc
  rw [List.eq_of_mem_replicate hc]
  decide

theorem toDigits_ne_nil (n : Nat) : Nat.toDigits 10 n ≠ [] := by
  rw [Nat.toDigits_eq_if (by decide)]
  split <;> simp

/-! ### The number that digits denote -/

theorem foldl_digits (ds : List Char) (n : Nat) :
    ds.foldl (fun n c => 10 * n + (digit? c).getD 0) n = n * 10 ^ ds.length + digitsValue ds := by
  unfold digitsValue
  induction ds generalizing n with
  | nil => simp
  | cons c ds ih =>
    rw [List.foldl_cons, ih, List.foldl_cons, ih (10 * 0 + _), List.length_cons, Nat.pow_succ]
    ring

theorem digitsValue_append (cs ds : List Char) :
    digitsValue (cs ++ ds) = digitsValue cs * 10 ^ ds.length + digitsValue ds := by
  rw [digitsValue, List.foldl_append]
  exact foldl_digits ds _

theorem digitsValue_replicate_zero (k : Nat) : digitsValue (List.replicate k '0') = 0 := by
  induction k with
  | zero => rfl
  | succ k ih =>
    rw [List.replicate_succ']
    rw [digitsValue_append, ih]
    decide

theorem digitsValue_toDigits (n : Nat) : digitsValue (Nat.toDigits 10 n) = n := by
  induction n using Nat.strongRecOn with
  | ind n ih =>
    have hdigit : ∀ k, k < 10 → digitsValue [k.digitChar] = k := by
      intro k hk
      simp [digitsValue, digit?_digitChar hk]
    rw [Nat.toDigits_eq_if (by decide)]
    split
    · next h => exact hdigit n h
    · rw [digitsValue_append, ih (n / 10) (by omega), hdigit _ (by omega), List.length_singleton]
      omega

end Text

namespace Decimal

open Text

/-! ## The grammar -/

inductive SignText : Bool → List Char → Prop
  | none : SignText false []
  | plus : SignText false ['+']
  | minus : SignText true ['-']

/-- Digits before the point, digits after it, and their text. -/
inductive MantissaText : List Char → List Char → List Char → Prop
  | whole {ds : List Char} : ds ≠ [] → Digits ds → MantissaText ds [] ds
  | point {ds fs : List Char} : ds ≠ [] → Digits ds → Digits fs →
      MantissaText ds fs (ds ++ '.' :: fs)
  | fraction {fs : List Char} : fs ≠ [] → Digits fs → MantissaText [] fs ('.' :: fs)

inductive ExponentText : Int → List Char → Prop
  | none : ExponentText 0 []
  | power {c : Char} {negative : Bool} {s ds : List Char} : c = 'e' ∨ c = 'E' →
      SignText negative s → ds ≠ [] → Digits ds →
      ExponentText (Binary.signed negative (digitsValue ds)) (c :: (s ++ ds))

/-- A text denotes a decimal. -/
inductive Denotes : List Char → Decimal → Prop
  | parts {negative : Bool} {s whole fraction m x : List Char} {e : Int} : SignText negative s →
      MantissaText whole fraction m → ExponentText e x →
      Denotes (s ++ (m ++ x)) ⟨negative, digitsValue (whole ++ fraction), e - fraction.length⟩

/-! ## What is read is in the grammar -/

theorem takeSign_text (cs : List Char) :
    ∃ s, SignText (takeSign cs).1 s ∧ cs = s ++ (takeSign cs).2 := by
  unfold takeSign
  split
  · exact ⟨_, .minus, rfl⟩
  · exact ⟨_, .plus, rfl⟩
  · exact ⟨_, .none, rfl⟩

theorem digits_takeWhile (cs : List Char) : Digits (cs.takeWhile isDigit) :=
  List.all_eq_true.1 List.all_takeWhile

theorem takeMantissa_text {cs whole fraction rest : List Char}
    (h : takeMantissa cs = (whole, fraction, rest)) (hne : (whole.isEmpty && fraction.isEmpty) = false) :
    ∃ m, MantissaText whole fraction m ∧ cs = m ++ rest := by
  have hcs := List.takeWhile_append_dropWhile (p := isDigit) (l := cs)
  have hwhole := digits_takeWhile cs
  unfold takeMantissa at h
  dsimp only at h
  generalize cs.takeWhile isDigit = ds at h hcs hwhole
  split at h
  · next after hdrop =>
    obtain ⟨rfl, rfl, rfl⟩ := h
    have hafter := List.takeWhile_append_dropWhile (p := isDigit) (l := after)
    have hfraction := digits_takeWhile after
    have htext : cs = (whole ++ '.' :: after.takeWhile isDigit) ++ after.dropWhile isDigit := by
      rw [← hcs, hdrop, List.append_assoc, List.cons_append, hafter]
    by_cases hds : whole = []
    · subst hds
      have hf : after.takeWhile isDigit ≠ [] := by
        intro h0
        rw [h0] at hne
        cases hne
      exact ⟨_, .fraction hf hfraction, htext⟩
    · exact ⟨_, .point hds hwhole hfraction, htext⟩
  · obtain ⟨rfl, rfl, rfl⟩ := h
    have hds : whole ≠ [] := by
      intro h0
      rw [h0] at hne
      cases hne
    exact ⟨_, .whole hds hwhole, hcs.symm⟩

theorem exponent?_text {cs : List Char} {e : Int} (h : exponent? cs = some e) : ExponentText e cs := by
  unfold exponent? at h
  split at h
  · cases h
    exact .none
  · next c rest =>
    obtain ⟨s, hs, hrest⟩ := takeSign_text rest
    split at h
    · next hc =>
      dsimp only at h
      split at h
      · next hds =>
        cases h
        rw [Bool.and_eq_true] at hds
        have hne : (takeSign rest).2 ≠ [] := by simpa using hds.1
        have hdigits : Digits (takeSign rest).2 := List.all_eq_true.1 hds.2
        have htext := ExponentText.power (by simpa using hc) hs hne hdigits
        rwa [← hrest] at htext
      · cases h
    · cases h

theorem denotes_of_ofChars? {cs : List Char} {d : Decimal} (h : ofChars? cs = some d) :
    Denotes cs d := by
  obtain ⟨s, hs, hcs⟩ := takeSign_text cs
  unfold ofChars? at h
  dsimp only at h
  generalize hm : takeMantissa (takeSign cs).2 = parts at h
  obtain ⟨whole, fraction, rest⟩ := parts
  split at h
  · cases h
  · next hne =>
    obtain ⟨e, he, rfl⟩ := Option.map_eq_some_iff.1 h
    obtain ⟨m, hmantissa, hunsigned⟩ := takeMantissa_text hm (Bool.eq_false_iff.2 hne)
    have htext := Denotes.parts hs hmantissa (exponent?_text he)
    rwa [← hunsigned, ← hcs] at htext

/-! ## What is in the grammar is read -/

theorem ExponentText.takeWhile {e : Int} {x : List Char} (h : ExponentText e x) :
    x.takeWhile isDigit = [] ∧ x.dropWhile isDigit = x ∧ ∀ cs, x ≠ '.' :: cs := by
  cases h with
  | none => exact ⟨rfl, rfl, fun _ h => by cases h⟩
  | power hc =>
    have hdigit : isDigit 'e' = false ∧ isDigit 'E' = false := by decide
    rcases hc with rfl | rfl
    · exact ⟨by simp [hdigit.1], by simp [hdigit.1], fun _ h => by cases h⟩
    · exact ⟨by simp [hdigit.2], by simp [hdigit.2], fun _ h => by cases h⟩

theorem takeMantissa_eq {whole fraction m x : List Char} {e : Int}
    (hm : MantissaText whole fraction m) (hx : ExponentText e x) :
    takeMantissa (m ++ x) = (whole, fraction, x) := by
  obtain ⟨htake, hdrop, hpoint⟩ := hx.takeWhile
  have hdot : isDigit '.' = false := by decide
  unfold takeMantissa
  cases hm with
  | whole hne hds =>
    dsimp only
    rw [List.takeWhile_append_of_pos hds, List.dropWhile_append_of_pos hds, htake, hdrop,
      List.append_nil]
    split
    · next rest => exact absurd rfl (hpoint rest)
    · rfl
  | point hne hds hfs =>
    dsimp only
    rw [List.append_assoc, List.takeWhile_append_of_pos hds, List.dropWhile_append_of_pos hds]
    simp [hdot, List.takeWhile_append_of_pos hfs, List.dropWhile_append_of_pos hfs, htake, hdrop]
  | fraction hne hfs =>
    simp [hdot, List.takeWhile_append_of_pos hfs, List.dropWhile_append_of_pos hfs, htake, hdrop]

/-- A text that starts with a digit or a point has no sign. -/
theorem takeSign_eq {negative : Bool} {s cs : List Char} (hs : SignText negative s)
    (h : ∀ c rest, cs = c :: rest → isDigit c = true ∨ c = '.') :
    takeSign (s ++ cs) = (negative, cs) := by
  cases hs with
  | minus => rfl
  | plus => rfl
  | none =>
    rw [List.nil_append]
    unfold takeSign
    split
    · exact absurd (h _ _ rfl) (by decide)
    · exact absurd (h _ _ rfl) (by decide)
    · rfl

theorem Digits.head {ds x : List Char} (hne : ds ≠ []) (hds : Digits ds) {c : Char}
    {rest : List Char} (h : ds ++ x = c :: rest) : isDigit c = true := by
  cases ds with
  | nil => exact absurd rfl hne
  | cons d ds =>
    cases h
    exact hds _ (by simp)

theorem MantissaText.head {whole fraction m x : List Char} (h : MantissaText whole fraction m)
    (c : Char) (rest : List Char) (hm : m ++ x = c :: rest) : isDigit c = true ∨ c = '.' := by
  cases h with
  | whole hne hds => exact Or.inl (Digits.head hne hds hm)
  | point hne hds _ =>
    rw [List.append_assoc] at hm
    exact Or.inl (Digits.head hne hds hm)
  | fraction _ _ =>
    cases hm
    exact Or.inr rfl

theorem exponent?_eq {e : Int} {x : List Char} (h : ExponentText e x) : exponent? x = some e := by
  cases h with
  | none => rfl
  | power hc hs hne hds =>
    have hsign := takeSign_eq hs fun c rest h =>
      Or.inl (Digits.head hne hds ((List.append_nil _).trans h))
    unfold exponent?
    dsimp only
    rw [if_pos (by simpa using hc), hsign]
    dsimp only
    rw [if_pos]
    rw [Bool.and_eq_true]
    exact ⟨by simpa using hne, List.all_eq_true.2 hds⟩

theorem ofChars?_of_denotes {cs : List Char} {d : Decimal} (h : Denotes cs d) :
    ofChars? cs = some d := by
  obtain ⟨hs, hm, hx⟩ := h
  next negative s whole fraction m x e =>
  have hne : (whole.isEmpty && fraction.isEmpty) = false := by
    cases hm with
    | whole hne _ => simp [hne]
    | point hne _ _ => simp [hne]
    | fraction hne _ => simp [hne]
  unfold ofChars?
  rw [takeSign_eq hs hm.head]
  dsimp only
  rw [takeMantissa_eq hm hx]
  dsimp only
  rw [if_neg (by rw [hne]; exact Bool.false_ne_true), exponent?_eq hx]
  rfl

/-- The reader of decimals is the grammar. -/
theorem ofChars?_eq_some_iff {cs : List Char} {d : Decimal} : ofChars? cs = some d ↔ Denotes cs d :=
  ⟨denotes_of_ofChars?, ofChars?_of_denotes⟩

end Decimal

end SmallLisp
