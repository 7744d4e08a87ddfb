import SmallLisp.Number.Basic

/-!
Whole numbers: rounding of floats to integers and the exact functions on integers.

The functions on integers compute their mathematical values at every size; products of consecutive
numbers are formed by halves.
-/

namespace SmallLisp

/-! ## Rounding to an integer -/

inductive Rounding where
  | ceil | floor | trunc
  deriving Repr, DecidableEq

def Rounding.name : Rounding → String
  | .ceil => "ceil"
  | .floor => "floor"
  | .trunc => "trunc"

/-- The integer for `± significand · 2 ^ exponent`. -/
def Rounding.apply (r : Rounding) (negative : Bool) (significand : Nat) (exponent : Int) : Int :=
  match r with
  | .floor => Binary.floor negative significand exponent
  | .ceil => -Binary.floor (!negative) significand exponent
  | .trunc => Binary.signed negative (Binary.floor false significand exponent).toNat

def Number.round (r : Rounding) : Number → Except NoResult Int
  | .integer n => .ok n
  | .float x =>
    match Binary.ofFloat x.toFloat with
    | .nan => .error .nanToInteger
    | .infinite _ => .error .infinityToInteger
    | .finite negative significand exponent => .ok (r.apply negative significand exponent)

/-! ## Functions on integers -/

inductive IntegerFunction where
  | comb | factorial | gcd | isqrt | lcm | perm
  deriving Repr, DecidableEq

def IntegerFunction.name : IntegerFunction → String
  | .comb => "comb"
  | .factorial => "factorial"
  | .gcd => "gcd"
  | .isqrt => "isqrt"
  | .lcm => "lcm"
  | .perm => "perm"

namespace Whole

/-- The product of the `n` numbers after `a`. -/
def rangeProduct (a n : Nat) : Nat :=
  if n = 0 then 1
  else if n = 1 then a + 1
  else rangeProduct a (n / 2) * rangeProduct (a + n / 2) (n - n / 2)
termination_by n
decreasing_by all_goals omega

/-- Newton's iteration for the root of `n`, from `r` downwards as long as it decreases. -/
def descend (n r : Nat) : Nat :=
  let next := (r + n / r) / 2
  if next < r then descend n next else r
termination_by r

/-- The greatest `r` with `r * r ≤ n`.  The iteration starts at a power of two above the root. -/
def squareRoot (n : Nat) : Nat :=
  if n ≤ 1 then n else descend n (Nat.pow 2 (n.log2 / 2 + 1))

def factorial (n : Int) : Except NoResult Int :=
  if (sizeLimit : Int) < n then .error .factorialTooLarge
  else if n < 0 then .error .factorialOfNegative
  else .ok (rangeProduct 0 n.toNat)

def isqrt (n : Int) : Except NoResult Int :=
  if n < 0 then .error .rootOfNegative else .ok (squareRoot n.toNat)

/-- The number of ways to choose `k` of `n` things. -/
def comb (n k : Int) : Except NoResult Int :=
  if n < 0 then .error .negativeCount
  else if k < 0 then .error .negativeChoice
  else if n < k then .ok 0
  else
    let j := (min k (n - k)).toNat
    if sizeLimit < j then .error .choiceTooLarge
    else .ok (rangeProduct (n.toNat - j) j / rangeProduct 0 j : Nat)

/-- The number of ways to arrange `k` of `n` things. -/
def perm (n k : Int) : Except NoResult Int :=
  if n < 0 then .error .negativeCount
  else if k < 0 then .error .negativeChoice
  else if n < k then .ok 0
  else if (sizeLimit : Int) < k then .error .arrangementTooLarge
  else .ok (rangeProduct (n - k).toNat k.toNat)

def gcd (ns : List Int) : Int :=
  ns.foldl (fun g n => (Nat.gcd g.natAbs n.natAbs : Nat)) 0

def lcm (ns : List Int) : Int :=
  ns.foldl (fun m n => (Nat.lcm m.natAbs n.natAbs : Nat)) 1

end Whole

end SmallLisp
