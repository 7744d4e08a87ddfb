import SmallLisp.Number.Decimal

/-!
The shortest decimal that reads back as a given float, and its text.

For one, two, … digits the two neighbours of the value on that decimal grid are tried; the first
grid with a neighbour that reads back wins, and of two such neighbours the nearer one, a tie going
to the even digit.  `Layout.render` writes the decimal, positionally when its leading digit is
neither too large nor too small.
-/

namespace SmallLisp

namespace Decimal

/-- Whether `10 ^ k ≤ n / d`. -/
def powerLe (k : Int) (n d : Nat) : Bool :=
  Nat.pow 10 k.toNat * d ≤ n * Nat.pow 10 (-k).toNat

/-- The greatest `k` with `10 ^ k ≤ n / d`, for positive `n` and `d`: the place of the leading digit.
`30103 / 100000` is the logarithm of 2, closely enough for one correction to settle it. -/
def leadingPlace (n d : Nat) : Int :=
  let k := (Binary.floorLog2 n d * 30103).fdiv 100000
  if powerLe (k + 1) n d then k + 1 else if powerLe k n d then k else k - 1

/-- A decimal without trailing zeros. -/
def dropZeros (digits : Nat) (exponent : Int) : Nat × Int :=
  if h : digits ≠ 0 ∧ digits % 10 = 0 then dropZeros (digits / 10) (exponent + 1)
  else (digits, exponent)
termination_by digits
decreasing_by omega

/-- The neighbour of `n / d` on the grid of the multiples of `10 ^ place` whose float has the given
bits; the nearer of two, and of two as near the even one. -/
def candidate? (bits n d : Nat) (place : Int) : Option (Nat × Int) :=
  let num := n * Nat.pow 10 (-place).toNat
  let den := d * Nat.pow 10 place.toNat
  let low := num / den
  let rest := num % den
  let readsBack (digits : Nat) : Bool :=
    (Decimal.mk false digits place).toFloat.toBits.toNat == bits
  let preferred := Binary.roundHalfEven num den
  let other := if preferred = low then low + 1 else low
  if rest = 0 then if readsBack low then some (low, place) else none
  else if readsBack preferred then some (preferred, place)
  else if readsBack other then some (other, place)
  else none

/-- All digits of `significand · 2 ^ exponent`. -/
def exact (significand : Nat) (exponent : Int) : Nat × Int :=
  if 0 ≤ exponent then (significand * Nat.pow 2 exponent.toNat, 0)
  else (significand * Nat.pow 5 (-exponent).toNat, exponent)

/-- Shortest digits and exponent of a positive float with the given parts. -/
def shortestParts (significand : Nat) (exponent : Int) : Nat × Int :=
  let (n, d) := Binary.scaled significand exponent
  let bits := Binary.nearestBits n d
  let place := leadingPlace n d
  let found := (List.range 17).findSome? fun (i : Nat) => candidate? bits n d (place - i)
  let (digits, e) := found.getD (exact significand exponent)
  dropZeros digits e

/-- The shortest decimal that reads back as `± significand · 2 ^ exponent`. -/
def shortest (negative : Bool) (significand : Nat) (exponent : Int) : Decimal :=
  if significand = 0 then ⟨negative, 0, 0⟩
  else
    let (digits, e) := shortestParts significand exponent
    ⟨negative, digits, e⟩

end Decimal

/-- How decimals are written: the places of the leading digit from `least` to `greatest` give
positional notation, and an exponent has at least `exponentWidth` digits. -/
structure Layout where
  least : Int
  greatest : Int
  exponentWidth : Nat

namespace Layout

/-- Positional notation from `0.0001` up to `10 ^ 16`; exponents have two digits or more. -/
def standard : Layout := ⟨-4, 15, 2⟩

/-- Digits without an exponent, with a digit on both sides of the point. -/
def positional (ds : List Char) (e : Int) : List Char :=
  if 0 ≤ e then ds ++ List.replicate e.toNat '0' ++ ['.', '0']
  else
    let places := (-e).toNat
    if places < ds.length then
      ds.take (ds.length - places) ++ '.' :: ds.drop (ds.length - places)
    else '0' :: '.' :: (List.replicate (places - ds.length) '0' ++ ds)

/-- One digit before the point, and an exponent with its sign. -/
def scientific (l : Layout) (ds : List Char) (e : Int) : List Char :=
  let lead := match ds with
    | [] => []
    | [c] => [c]
    | c :: rest => c :: '.' :: rest
  let place := e + ds.length - 1
  let power := Nat.toDigits 10 place.natAbs
  lead ++ 'e' :: (if place < 0 then '-' else '+') ::
    (List.replicate (l.exponentWidth - power.length) '0' ++ power)

def renderChars (l : Layout) (d : Decimal) : List Char :=
  let ds := Nat.toDigits 10 d.digits
  let place := d.exponent + ds.length - 1
  let body :=
    if l.least ≤ place && place ≤ l.greatest then positional ds d.exponent
    else l.scientific ds d.exponent
  if d.negative then '-' :: body else body

def render (l : Layout) (d : Decimal) : String := String.ofList (l.renderChars d)

end Layout

end SmallLisp
