import SmallLisp.Proofs.Data
import SmallLisp.Proofs.Grammar
import SmallLisp.Proofs.Number.PrintedFloat

/-!
What is printed can be read.

The text of a datum has the tokens of the datum (`Value.print_tokens`), and these tokens derive the
datum (`Grammar.derives_tokens`).  So printing a datum and reading the text gives the datum
(`parse_print`), if its symbols are not written like numbers and its floats are finite.
-/

namespace SmallLisp

namespace Datum

mutual

/-- Finite floats, and symbols whose names are words but no numbers. -/
def Printable : Datum → Prop
  | .number x => ∃ negative significand exponent,
      Binary.ofFloat x = .finite negative significand exponent
  | .symbol name => Token.Word name.toList ∧ ¬ ∃ d, Decimal.Denotes name.toList d
  | .list items => PrintableAll items

def PrintableAll : List Datum → Prop
  | [] => True
  | d :: ds => Printable d ∧ PrintableAll ds

end

mutual

/-- The tokens of the printed text. -/
def tokens : Datum → List (List Char)
  | .number x => [(Number.printFloat x).toList]
  | .symbol name => [name.toList]
  | .list items => ['('] :: (tokensAll items ++ [[')']])

def tokensAll : List Datum → List (List Char)
  | [] => []
  | d :: ds => tokens d ++ tokensAll ds

end

theorem word_printFloat {x : Float} (h : Printable (.number x)) :
    Token.Word (Number.printFloat x).toList := by
  obtain ⟨negative, m, e, hx⟩ := h
  obtain ⟨d, hd, -⟩ := Number.denotes_printFloat hx
  exact hd.word

theorem atom_printFloat {x : Float} (h : Printable (.number x)) :
    atom (Number.printFloat x) = .number x := by
  obtain ⟨negative, m, e, hx⟩ := h
  obtain ⟨d, hd, hfloat⟩ := Number.denotes_printFloat hx
  unfold atom
  rw [Decimal.ofChars?_eq_some_iff.2 hd]
  dsimp only
  rw [hfloat]

theorem atom_symbol {name : String} (h : Printable (.symbol name)) : atom name = .symbol name := by
  have hnone : Decimal.ofChars? name.toList = none := by
    cases hd : Decimal.ofChars? name.toList with
    | none => rfl
    | some d => exact absurd ⟨d, Decimal.ofChars?_eq_some_iff.1 hd⟩ h.2
  unfold atom
  rw [hnone]

end Datum

/-! ## Printing -/

namespace Value

open Token

mutual

/-- The text of a datum has its tokens, also in front of other text. -/
theorem print_tokens : ∀ {v : Value} {d : Datum} {depth : Nat}, v.datum? = some d →
    d.Printable → d.nesting ≤ depth → ∃ text, v.print depth = .ok text ∧
      ∀ rest, Boundary rest → ofChars (text.toList ++ rest) = d.tokens ++ ofChars rest
  | .number (.float (.float x)), _, depth, hv, hd, _ => by
    cases hv
    exact ⟨Number.printFloat x, rfl, fun rest hrest => ofChars_word (Datum.word_printFloat hd) hrest⟩
  | .symbol name, _, depth, hv, hd, _ => by
    cases hv
    exact ⟨name, rfl, fun rest hrest => ofChars_word hd.1 hrest⟩
  | .list mark items, _, depth, hv, hd, hn => by
    obtain ⟨ds, hds, rfl⟩ := Option.map_eq_some_iff.1 hv
    cases depth with
    | zero => cases hn
    | succ depth =>
      obtain ⟨texts, htexts, htokens⟩ := printAll_tokens hds hd (Nat.le_of_succ_le_succ hn)
      refine ⟨"(" ++ " ".intercalate texts ++ ")", ?_, fun rest hrest => ?_⟩
      · simp only [print, htexts]
        rfl
      · have htext : ("(" ++ " ".intercalate texts ++ ")").toList ++ rest =
            '(' :: ((" ".intercalate texts).toList ++ ')' :: rest) := by
          simp
        rw [htext, ofChars_parenthesis (Or.inl rfl), htokens _ (boundary_cons (by decide) rest),
          ofChars_parenthesis (Or.inr rfl)]
        simp [Datum.tokens]

theorem printAll_tokens : ∀ {vs : List Value} {ds : List Datum} {depth : Nat},
    data? vs = some ds → Datum.PrintableAll ds → Datum.nestingAll ds ≤ depth →
    ∃ texts, printAll depth vs = .ok texts ∧ ∀ rest, Boundary rest →
      ofChars ((" ".intercalate texts).toList ++ rest) = Datum.tokensAll ds ++ ofChars rest
  | [], _, depth, hv, _, _ => by
    cases hv
    exact ⟨[], rfl, fun rest _ => by simp [Datum.tokensAll]⟩
  | v :: vs, _, depth, hv, hd, hn => by
    obtain ⟨d, ds, hdatum, hdata, rfl⟩ := data?_cons.1 hv
    obtain ⟨hle, hles⟩ := Nat.max_le.1 hn
    obtain ⟨text, htext, htoken⟩ := print_tokens hdatum hd.1 hle
    obtain ⟨texts, htexts, htokens⟩ := printAll_tokens hdata hd.2 hles
    refine ⟨text :: texts, ?_, fun rest hrest => ?_⟩
    · simp only [printAll, htext, htexts]
      rfl
    · cases texts with
      | nil =>
        have hrest' := htokens rest hrest
        rw [String.intercalate_nil, String.toList_empty, List.nil_append] at hrest'
        rw [String.intercalate_singleton, htoken rest hrest, Datum.tokensAll, List.append_assoc,
          ← hrest']
      | cons next texts =>
        have hsplit : (" ".intercalate (text :: next :: texts)).toList ++ rest =
            text.toList ++ ' ' :: ((" ".intercalate (next :: texts)).toList ++ rest) := by
          rw [String.intercalate_cons_cons]
          simp
        rw [hsplit, htoken _ (boundary_cons (by decide) _), ofChars_blank, htokens rest hrest,
          Datum.tokensAll, List.append_assoc]

end

end Value

/-! ## Reading -/

/-- A word is no parenthesis. -/
theorem Token.Word.ofList_ne {w : List Char} (hw : Token.Word w) {c : Char}
    (hc : Token.isPlain c = false) : String.ofList w ≠ String.ofList [c] := by
  intro h
  have hlist : w = [c] := String.ofList_injective h
  have hplain := hw.2 c (by simp [hlist])
  rw [hc] at hplain
  cases hplain

namespace Grammar

open Datum

theorem Derives.word {w : List Char} (hw : Token.Word w) :
    Derives [String.ofList w] (Datum.atom (String.ofList w)) := by
  refine .atom ?_ ?_
  · rw [Token.opening_eq]
    exact hw.ofList_ne (by decide)
  · rw [Token.closing_eq]
    exact hw.ofList_ne (by decide)

mutual

/-- The tokens of the printed text derive the datum. -/
theorem derives_tokens : ∀ {d : Datum}, d.Printable → Derives (d.tokens.map String.ofList) d
  | .number x, hd => by
    have h := Derives.word (word_printFloat hd)
    rw [String.ofList_toList, atom_printFloat hd] at h
    simpa [tokens] using h
  | .symbol name, hd => by
    have h := Derives.word hd.1
    rw [String.ofList_toList, atom_symbol hd] at h
    simpa [tokens] using h
  | .list items, hd => by
    have h := Derives.list (derivesAll_tokens hd)
    rw [Token.opening_eq, Token.closing_eq] at h
    simpa [tokens] using h

theorem derivesAll_tokens : ∀ {ds : List Datum}, PrintableAll ds →
    DerivesAll ((tokensAll ds).map String.ofList) ds
  | [], _ => .nil
  | d :: ds, hd => by
    rw [tokensAll, List.map_append]
    exact .cons (derives_tokens hd.1) (derivesAll_tokens hd.2)

end

end Grammar

/-- A text with the tokens of a datum is read as that datum. -/
theorem parse_of_tokens {d : Datum} (hd : d.Printable) {limit : Nat} (hlimit : d.nesting ≤ limit)
    {text : String} (htext : Token.ofChars text.toList = d.tokens) : parse limit text = .ok d := by
  rw [parse_eq_ok_iff, Token.tokenize_eq, htext]
  exact ⟨Grammar.derives_tokens hd, hlimit⟩

/-- Printing a datum and reading the text gives the datum.  Equal floats have equal bits, so also the
sign of a zero comes back. -/
theorem parse_print {v : Value} {d : Datum} (hv : v.datum? = some d) (hd : d.Printable)
    {depth limit : Nat} (hdepth : d.nesting ≤ depth) (hlimit : d.nesting ≤ limit) :
    ∃ text, v.print depth = .ok text ∧ parse limit text = .ok d := by
  obtain ⟨text, hprint, htokens⟩ := Value.print_tokens hv hd hdepth
  have htext := htokens [] nofun
  rw [List.append_nil, Token.ofChars_nil, List.append_nil] at htext
  exact ⟨text, hprint, parse_of_tokens hd hlimit htext⟩

/-- A name that starts like a number, negative zero, an empty list and a tenth. -/
theorem parse_print_signed_zero :
    ∃ text, Value.print 2 (.list 0 [.symbol "1+",
        .number (.float (.float (Float.ofBits 0x8000000000000000))), .list 1 [],
        .number (.float (.float (Float.ofBits 0x3FB999999999999A)))]) = .ok text ∧
      parse 2 text = .ok (.list [.symbol "1+", .number (Float.ofBits 0x8000000000000000), .list [],
        .number (Float.ofBits 0x3FB999999999999A)]) := by
  have hname : ¬ ∃ d, Decimal.Denotes "1+".toList d := by
    rintro ⟨d, hd⟩
    have hread := Decimal.ofChars?_eq_some_iff.2 hd
    have hnone : Decimal.ofChars? "1+".toList = none := by decide +kernel
    rw [hnone] at hread
    cases hread
  have hplain : "1+".toList.all Token.isPlain = true := by decide +kernel
  have hword : Token.Word "1+".toList := ⟨by decide, List.all_eq_true.1 hplain⟩
  have hzero : Binary.ofFloat (Float.ofBits 0x8000000000000000) = .finite true 0 (-1074) := by
    decide +kernel
  have htenth : Binary.ofFloat (Float.ofBits 0x3FB999999999999A) =
      .finite false 7205759403792794 (-56) := by
    decide +kernel
  have hprintable : (Datum.list [.symbol "1+", .number (Float.ofBits 0x8000000000000000), .list [],
      .number (Float.ofBits 0x3FB999999999999A)]).Printable :=
    ⟨⟨hword, hname⟩, ⟨_, _, _, hzero⟩, trivial, ⟨_, _, _, htenth⟩, trivial⟩
  exact parse_print rfl hprintable (Nat.le_refl 2) (Nat.le_refl 2)

end SmallLisp
