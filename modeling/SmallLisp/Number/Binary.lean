/-!
Binary floating point, taken apart and put together exactly.

A float is not a number, an infinity, or `± significand · 2 ^ exponent`.  `Binary.ofFloat` reads these
parts off its bits and `Binary.nearest` gives the float nearest to a ratio of natural numbers, a
half going to the even significand.  Between the two everything is arithmetic of `Nat` and `Int`, so
every rounding in this library is one call of `nearestBits`.
-/

namespace SmallLisp

inductive Binary where
  | nan
  | infinite (negative : Bool)
  | finite (negative : Bool) (significand : Nat) (exponent : Int)
  deriving Repr, DecidableEq

namespace Binary

/-! ## Reading the bits -/

/-- The bits of positive infinity: the magnitudes below it are those of the finite floats. -/
def infinityBits : Nat := 2047 * Nat.pow 2 52

def signBit : Nat := Nat.pow 2 63

def ofBits (bits : Nat) : Binary :=
  let negative := decide (signBit ≤ bits)
  let field : Nat := bits / Nat.pow 2 52 % Nat.pow 2 11
  let fraction : Nat := bits % Nat.pow 2 52
  if field = 2047 then
    if fraction = 0 then .infinite negative else .nan
  else if field = 0 then .finite negative fraction (-1074)
  else .finite negative (Nat.pow 2 52 + fraction) (field - 1075)

def ofFloat (x : Float) : Binary := ofBits x.toBits.toNat

/-! ## Rounding -/

/-- The natural number nearest to `n / d`; a half goes to the even one. -/
def roundHalfEven (n d : Nat) : Nat :=
  let q := n / d
  let r := n % d
  if 2 * r < d then q
  else if d < 2 * r then q + 1
  else q + q % 2

/-- `n · 2 ^ k` as a ratio. -/
def scaled (n : Nat) (k : Int) : Nat × Nat :=
  if 0 ≤ k then (n * Nat.pow 2 k.toNat, 1) else (n, Nat.pow 2 (-k).toNat)

/-- The greatest `k` with `2 ^ k ≤ n / d`, for positive `n` and `d`. -/
def floorLog2 (n d : Nat) : Int :=
  let k : Int := n.log2 - d.log2
  if d * Nat.pow 2 k.toNat ≤ n * Nat.pow 2 (-k).toNat then k else k - 1

/-- The bits of the float nearest to `n / d`.  They pass `infinityBits` when the ratio is too large:
a significand that rounds up to the next power of two carries into the exponent. -/
def nearestBits (n d : Nat) : Nat :=
  if n = 0 then 0
  else
    let e := max (floorLog2 n d - 52) (-1074)
    let q := roundHalfEven (n * Nat.pow 2 (-e).toNat) (d * Nat.pow 2 e.toNat)
    (e + 1074).toNat * Nat.pow 2 52 + q

/-- The float with the given sign and magnitude bits; all bits from `infinityBits` on mean infinity. -/
def floatOfBits (negative : Bool) (bits : Nat) : Float :=
  Float.ofBits (UInt64.ofNat (min bits infinityBits + if negative then signBit else 0))

/-- The float nearest to `± n / d`. -/
def nearest (negative : Bool) (n d : Nat) : Float :=
  floatOfBits negative (nearestBits n d)

/-- The float nearest to `± n · 2 ^ k`. -/
def nearestScaled (negative : Bool) (n : Nat) (k : Int) : Float :=
  let r := scaled n k
  nearest negative r.1 r.2

/-- The float nearest to an integer, or `none` past the finite floats. -/
def ofInt? (n : Int) : Option Float :=
  let bits := nearestBits n.natAbs 1
  if bits < infinityBits then some (floatOfBits (decide (n < 0)) bits) else none

/-- The float nearest to `a / b` for `b ≠ 0`, or `none` past the finite floats. -/
def ofQuotient? (a b : Int) : Option Float :=
  let bits := nearestBits a.natAbs b.natAbs
  if bits < infinityBits then some (floatOfBits (decide (a < 0) != decide (b < 0)) bits) else none

/-! ## Signs and whole numbers -/

def isNegative (x : Float) : Bool := decide (signBit ≤ x.toBits.toNat)

/-- The magnitude of `x` with the sign of `y`. -/
def copySign (x y : Float) : Float :=
  if isNegative x = isNegative y then x else -x

/-- A magnitude with its sign. -/
def signed (negative : Bool) (n : Nat) : Int := if negative then -n else n

theorem natAbs_signed (negative : Bool) (n : Nat) : (signed negative n).natAbs = n := by
  unfold signed
  split <;> omega

theorem signed_natAbs {negative : Bool} {n : Int} (h : negative = decide (n < 0)) :
    signed negative n.natAbs = n := by
  subst h
  unfold signed
  split
  · next hneg =>
    rw [decide_eq_true_eq] at hneg
    omega
  · next hneg =>
    rw [decide_eq_true_eq] at hneg
    omega

/-- The integer below or at `± significand · 2 ^ exponent`. -/
def floor (negative : Bool) (significand : Nat) (exponent : Int) : Int :=
  let r := scaled significand exponent
  (signed negative r.1).fdiv r.2

/-- The value as an integer, when it is one. -/
def toInt? : Binary → Option Int
  | .finite negative significand exponent =>
    let r := scaled significand exponent
    if r.1 % r.2 = 0 then some (signed negative (r.1 / r.2)) else none
  | _ => none

end Binary

end SmallLisp
