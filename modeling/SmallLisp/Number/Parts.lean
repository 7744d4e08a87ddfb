import SmallLisp.Number.Basic

/-!
Exact operations on the parts of floats: remainders, neighbours, splitting and scaling.

None of them rounds, apart from scaling into the subnormal range.
-/

namespace SmallLisp.Binary

/-! ## Remainders -/

/-- Two magnitudes as multiples of the smaller unit, and that unit's exponent. -/
def align (s : Nat) (i : Int) (t : Nat) (j : Int) : Nat × Nat × Int :=
  let low := min i j
  (s * Nat.pow 2 (i - low).toNat, t * Nat.pow 2 (j - low).toNat, low)

/-- The remainder with the sign of `x`, of a quotient cut toward zero. -/
def truncatedRemainder (x y : Float) : Except NoResult Float :=
  match ofFloat x, ofFloat y with
  | .finite _ _ _, .infinite _ => .ok x
  | .finite negative s i, .finite _ t j =>
    if t = 0 then .error .domain
    else
      let (a, b, e) := align s i t j
      .ok (nearestScaled negative (a % b) e)
  | _, _ => .error .domain

/-- The remainder of a quotient rounded to nearest, a half going to the even quotient. -/
def nearestRemainder (x y : Float) : Except NoResult Float :=
  match ofFloat x, ofFloat y with
  | .finite _ _ _, .infinite _ => .ok x
  | .finite negative s i, .finite _ t j =>
    if t = 0 then .error .domain
    else
      let (a, b, e) := align s i t j
      let r := a % b
      if 2 * r < b || (2 * r = b && a / b % 2 = 0) then .ok (nearestScaled negative r e)
      else .ok (nearestScaled (!negative) (b - r) e)
  | _, _ => .error .domain

/-! ## Neighbours -/

/-- The float next to `x` in the direction of `y`. -/
def nextAfter (x y : Float) : Float :=
  if x == y then y
  else if x == 0.0 then floatOfBits (isNegative y) 1
  else
    let magnitude := x.abs.toBits.toNat
    let outward := (x < y) == (0.0 < x)
    floatOfBits (isNegative x) (if outward then magnitude + 1 else magnitude - 1)

/-- The unit in the last place of `x`. -/
def unitInLastPlace (x : Float) : Float :=
  match ofFloat x with
  | .finite _ _ exponent => nearestScaled false 1 exponent
  | _ => x.abs

/-! ## Splitting and scaling -/

/-- `x` as `m · 2 ^ e` with `m` between one half and one; zero and what is not finite keep `e = 0`. -/
def splitExponent (x : Double) : Double × Int :=
  match ofFloat x.toFloat with
  | .finite negative significand exponent =>
    if significand = 0 then (x, 0)
    else
      let width := significand.log2 + 1
      (.float (nearestScaled negative significand (-width)), exponent + width)
  | _ => (x, 0)

/-- The fraction and the whole part of `x`, both with its sign. -/
def splitFraction (x : Double) : Double × Double :=
  match ofFloat x.toFloat with
  | .nan => (x, x)
  | .infinite negative => (.float (floatOfBits negative 0), x)
  | .finite negative significand exponent =>
    let (n, d) := scaled significand exponent
    (.float (nearest negative (n % d) d), .float (nearest negative (n / d) 1))

/-- The exponents outside this range leave every float unchanged, zero or past the finite floats. -/
def scaleBound : Int := 5000

/-- `x · 2 ^ k`. -/
def scaleBy (x : Double) (k : Int) : Except NoResult Double :=
  match ofFloat x.toFloat with
  | .finite negative significand exponent =>
    if significand = 0 then .ok x
    else
      let e := exponent + max (-scaleBound) (min k scaleBound)
      let r := nearestScaled negative significand e
      if r.isInf then .error .range else .ok (.float r)
  | _ => .ok x

end SmallLisp.Binary
