import SmallLisp.Proofs.RoundTrip
import SmallLisp.Proofs.Scanner

/-!
Printed text is a normal form.

A source text may hold any blanks and any spelling of its numbers.  The text of the datum that is
read from it does not: reading that text and printing again changes nothing (`parse_normal`).  The
datum itself need not come back.  A number past the finite floats is an infinity, whose text denotes
no number, so it is read back as a symbol (`Datum.reread`).
-/

namespace SmallLisp

/-! ## Numbers that can be read -/

/-- Bits up to those of infinity, the sign apart, are no NaN: the largest field leaves no room for a
fraction. -/
theorem Binary.ofBits_ne_nan {bits : Nat} (h : bits % 2 ^ 63 ≤ infinityBits) :
    ofBits bits ≠ .nan := by
  have h : bits % 2 ^ 63 ≤ 2047 * 2 ^ 52 := h
  intro hnan
  unfold ofBits at hnan
  dsimp only at hnan
  split at hnan
  · next hfield =>
    have hfield : bits / 2 ^ 52 % 2 ^ 11 = 2047 := hfield
    have hfraction : bits % 2 ^ 52 = 0 := by omega
    cases (if_pos hfraction).symm.trans hnan
  · split at hnan <;> cases hnan

/-- A decimal is read as a finite float or an infinity. -/
theorem Decimal.ofFloat_toFloat_ne_nan (d : Decimal) : Binary.ofFloat d.toFloat ≠ .nan := by
  rw [toFloat_eq_nearest]
  apply Binary.ofBits_ne_nan
  have hinfinity : Binary.infinityBits = 2047 * 2 ^ 52 := rfl
  have hsign : Binary.signBit = 2 ^ 63 := rfl
  unfold Binary.nearest
  rw [Binary.toNat_toBits_floatOfBits]
  split <;> omega

theorem Number.printFloat_infinite {x : Float} {negative : Bool}
    (h : Binary.ofFloat x = .infinite negative) :
    Number.printFloat x = if negative then "-inf" else "inf" := by
  unfold Number.printFloat Number.describeFloat
  rw [h]
  rfl

/-! ## Data that are read back -/

namespace Datum

mutual

/-- What is read back for a datum: the text of an infinity is the name of a symbol. -/
def reread : Datum → Datum
  | .number x =>
    match Binary.ofFloat x with
    | .infinite _ => .symbol (Number.printFloat x)
    | _ => .number x
  | .symbol name => .symbol name
  | .list items => .list (rereadAll items)

def rereadAll : List Datum → List Datum
  | [] => []
  | d :: ds => reread d :: rereadAll ds

end

theorem reread_infinite {x : Float} {negative : Bool} (h : Binary.ofFloat x = .infinite negative) :
    reread (.number x) = .symbol (Number.printFloat x) := by
  rw [reread, h]

theorem reread_finite {x : Float} {negative : Bool} {m : Nat} {e : Int}
    (h : Binary.ofFloat x = .finite negative m e) : reread (.number x) = .number x := by
  rw [reread, h]

mutual

theorem nesting_reread : ∀ d : Datum, d.reread.nesting = d.nesting
  | .number x => by
    rw [reread]
    split <;> rfl
  | .symbol _ => rfl
  | .list items => by
    rw [reread, nesting, nesting, nestingAll_rereadAll items]

theorem nestingAll_rereadAll : ∀ ds : List Datum, nestingAll (rereadAll ds) = nestingAll ds
  | [] => rfl
  | d :: ds => by
    rw [rereadAll, nestingAll, nestingAll, nesting_reread d, nestingAll_rereadAll ds]

end

/-- The texts of the infinities are words, and no decimals. -/
theorem printable_infinite {x : Float} {negative : Bool}
    (h : Binary.ofFloat x = .infinite negative) :
    Printable (.symbol (Number.printFloat x)) := by
  rw [Number.printFloat_infinite h]
  have hplain : ∀ b : Bool, (if b then "-inf" else "inf").toList.all Token.isPlain = true := by
    decide +kernel
  have hnone : ∀ b : Bool, Decimal.ofChars? (if b then "-inf" else "inf").toList = none := by
    decide +kernel
  refine ⟨⟨?_, List.all_eq_true.1 (hplain negative)⟩, ?_⟩
  · cases negative <;> decide
  · rintro ⟨d, hd⟩
    rw [← Decimal.ofChars?_eq_some_iff, hnone negative] at hd
    cases hd

theorem printable_reread_atom {token : String} (h : Token.Word token.toList) :
    (atom token).reread.Printable := by
  unfold atom
  split
  · next d hd =>
    cases hx : Binary.ofFloat d.toFloat with
    | nan => exact absurd hx d.ofFloat_toFloat_ne_nan
    | infinite negative =>
      rw [reread_infinite hx]
      exact printable_infinite hx
    | finite negative m e =>
      rw [reread_finite hx]
      exact ⟨negative, m, e, hx⟩
  · next hnone =>
    refine ⟨h, ?_⟩
    rintro ⟨d, hd⟩
    rw [← Decimal.ofChars?_eq_some_iff, hnone] at hd
    cases hd

end Datum

namespace Grammar

open Datum

mutual

/-- Whatever words are read as, it prints as something that can be read. -/
theorem Derives.printable_reread : ∀ {us : List String} {d : Datum}, Derives us d →
    (∀ u ∈ us, u ≠ Token.opening → u ≠ Token.closing → Token.Word u.toList) → d.reread.Printable
  | _, _, .atom hopen hclose, hus =>
    printable_reread_atom (hus _ (List.mem_singleton.2 rfl) hopen hclose)
  | _, _, .list h, hus =>
    h.printableAll_rereadAll fun u hu => hus u (by simp [hu])

theorem DerivesAll.printableAll_rereadAll : ∀ {us : List String} {ds : List Datum},
    DerivesAll us ds →
    (∀ u ∈ us, u ≠ Token.opening → u ≠ Token.closing → Token.Word u.toList) →
    PrintableAll (rereadAll ds)
  | _, _, .nil, _ => trivial
  | _, _, .cons hd hds, hus =>
    ⟨hd.printable_reread fun u hu => hus u (by simp [hu]),
      hds.printableAll_rereadAll fun u hu => hus u (by simp [hu])⟩

end

end Grammar

namespace Value

mutual

/-- What is read back has the same text. -/
theorem print_reread : ∀ {v w : Value} {d : Datum} {depth : Nat}, v.datum? = some d →
    w.datum? = some d.reread → v.print depth = w.print depth
  | .number (.float (.float x)), w, _, depth, hv, hw => by
    cases hv
    cases hx : Binary.ofFloat x with
    | infinite negative =>
      rw [Datum.reread_infinite hx] at hw
      rw [datum?_eq_symbol hw]
      rfl
    | _ =>
      rw [Datum.reread, hx] at hw
      rw [datum?_eq_number hw]
  | .symbol name, w, _, depth, hv, hw => by
    cases hv
    rw [datum?_eq_symbol hw]
  | .list mark items, w, _, depth, hv, hw => by
    obtain ⟨ds, hds, rfl⟩ := Option.map_eq_some_iff.1 hv
    obtain ⟨mark', items', rfl, hitems⟩ := datum?_eq_list hw
    cases depth with
    | zero => rfl
    | succ depth => simp only [print, printAll_rereadAll hds hitems]

theorem printAll_rereadAll : ∀ {vs ws : List Value} {ds : List Datum} {depth : Nat},
    data? vs = some ds → data? ws = some (Datum.rereadAll ds) →
    printAll depth vs = printAll depth ws
  | [], ws, _, depth, hv, hw => by
    cases hv
    rw [data?_eq_nil hw]
  | v :: vs, ws, _, depth, hv, hw => by
    obtain ⟨d, ds, hdatum, hdata, rfl⟩ := data?_cons.1 hv
    obtain ⟨w, ws, rfl, hwd, hws⟩ := data?_eq_cons hw
    rw [printAll, printAll, print_reread hdatum hwd, printAll_rereadAll hdata hws]

end

end Value

/-- The text of what is read from any source is read again, as the datum or with symbols in the
place of its infinities, and what is read has that same text. -/
theorem parse_normal {limit depth : Nat} {source : String} {d : Datum}
    (hread : parse limit source = .ok d) (hdepth : d.nesting ≤ depth) :
    ∃ text, (∀ v : Value, v.datum? = some d → v.print depth = .ok text) ∧
      parse limit text = .ok d.reread ∧
      ∀ w : Value, w.datum? = some d.reread → w.print depth = .ok text := by
  obtain ⟨hderives, hlimit⟩ := parse_eq_ok_iff.1 hread
  have hprintable := hderives.printable_reread fun u hu => Token.word_of_mem_tokenize hu
  rw [← d.nesting_reread] at hdepth hlimit
  have hback := Value.datum?_intern d.reread 0
  obtain ⟨text, hprint, htokens⟩ := Value.print_tokens hback hprintable hdepth
  have htext := htokens [] nofun
  rw [List.append_nil, Token.ofChars_nil, List.append_nil] at htext
  have hsource : ∀ v : Value, v.datum? = some d → v.print depth = .ok text :=
    fun v hv => (Value.print_reread hv hback).trans hprint
  refine ⟨text, hsource, parse_of_tokens hprintable hlimit htext, fun w hw => ?_⟩
  have hd := Value.datum?_intern d 0
  rw [← Value.print_reread hd hw]
  exact hsource _ hd

/-- A number that overflows, one with a superfluous digit, and a name like the text of an infinity. -/
theorem parse_normal_overflow :
    parse 2 "\t(-1e999( 1.50 )\u2003inf)" = .ok (.list [.number (Binary.floatOfBits true
        Binary.infinityBits), .list [.number 1.5], .symbol "inf"]) ∧
      ∃ text, (∀ v : Value, v.datum? = some (.list [.number (Binary.floatOfBits true
          Binary.infinityBits), .list [.number 1.5], .symbol "inf"]) → v.print 2 = .ok text) ∧
        parse 2 text = .ok (.list [.symbol "-inf", .list [.number 1.5], .symbol "inf"]) ∧
        ∀ w : Value, w.datum? = some (.list [.symbol "-inf", .list [.number 1.5], .symbol "inf"]) →
          w.print 2 = .ok text := by
  have hread : parse 2 "\t(-1e999( 1.50 )\u2003inf)" = .ok (.list [.number (Binary.floatOfBits true
      Binary.infinityBits), .list [.number 1.5], .symbol "inf"]) := by
    rfl
  exact ⟨hread, parse_normal hread (Nat.le_refl 2)⟩

end SmallLisp
