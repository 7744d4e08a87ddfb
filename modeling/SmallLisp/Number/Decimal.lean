import SmallLisp.Number.Binary
import SmallLisp.Text.Digit

/-!
Decimal numbers: the texts that denote them and the floats nearest to them.

A decimal is `± digits · 10 ^ exponent`.  Its texts have an optional sign, digits with an optional
point among or next to them (at least one digit), and an optional exponent; a digit is a decimal
digit of any script.
-/

namespace SmallLisp

structure Decimal where
  negative : Bool
  digits : Nat
  exponent : Int
  deriving Repr, DecidableEq

namespace Decimal

/-! ## Texts -/

/-- An optional sign, and what follows it. -/
def takeSign : List Char → Bool × List Char
  | '-' :: cs => (true, cs)
  | '+' :: cs => (false, cs)
  | cs => (false, cs)

/-- The exponent that ends the text of a decimal. -/
def exponent? : List Char → Option Int
  | [] => some 0
  | c :: cs =>
    if c = 'e' || c = 'E' then
      let (negative, ds) := takeSign cs
      if !ds.isEmpty && ds.all Text.isDigit then some (Binary.signed negative (Text.digitsValue ds))
      else none
    else none

/-- Digits before the point, the point, digits after it, and what follows. -/
def takeMantissa (cs : List Char) : List Char × List Char × List Char :=
  let whole := cs.takeWhile Text.isDigit
  match cs.dropWhile Text.isDigit with
  | '.' :: rest => (whole, rest.takeWhile Text.isDigit, rest.dropWhile Text.isDigit)
  | rest => (whole, [], rest)

/-- The decimal that a text denotes, and `none` for a text that denotes no decimal. -/
def ofChars? (cs : List Char) : Option Decimal :=
  let (negative, unsigned) := takeSign cs
  let (whole, fraction, rest) := takeMantissa unsigned
  if whole.isEmpty && fraction.isEmpty then none
  else (exponent? rest).map fun e =>
    ⟨negative, Text.digitsValue (whole ++ fraction), e - fraction.length⟩

/-! ## Floats -/

/-- The magnitude of a decimal as a ratio. -/
def ratio (d : Decimal) : Nat × Nat :=
  if 0 ≤ d.exponent then (d.digits * Nat.pow 10 d.exponent.toNat, 1)
  else (d.digits, Nat.pow 10 (-d.exponent).toNat)

/-- The float nearest to a decimal.  Decimals from `10 ^ 400` on are past the finite floats and those
below `2 ^ -1100` round to zero, so the powers of ten that are formed stay in proportion to the
text. -/
def toFloat (d : Decimal) : Float :=
  if d.digits = 0 then Binary.floatOfBits d.negative 0
  else if 400 < d.exponent then Binary.floatOfBits d.negative Binary.infinityBits
  else if (d.digits.log2 : Int) + 1101 < -3 * d.exponent then Binary.floatOfBits d.negative 0
  else Binary.nearest d.negative d.ratio.1 d.ratio.2

end Decimal

end SmallLisp
