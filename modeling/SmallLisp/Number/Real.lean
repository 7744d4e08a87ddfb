import SmallLisp.Number.Approximation
import SmallLisp.Number.Special

/-!
Functions of floats with their domains and ranges.

A function that has no value at a finite argument is a domain error, one whose value there is too
large a range error.  What is not a number stays what it is without an error, with few exceptions.
-/

namespace SmallLisp

/-! ## One argument -/

inductive RealFunction where
  | acos | acosh | asin | asinh | atan | atanh | cbrt | cos | cosh | degrees | erf | erfc | exp | exp2
  | expm1 | fabs | gamma | lgamma | log1p | radians | sin | sinh | sqrt | tan | tanh | ulp
  deriving Repr, DecidableEq

namespace RealFunction

def name : RealFunction → String
  | .acos => "acos"
  | .acosh => "acosh"
  | .asin => "asin"
  | .asinh => "asinh"
  | .atan => "atan"
  | .atanh => "atanh"
  | .cbrt => "cbrt"
  | .cos => "cos"
  | .cosh => "cosh"
  | .degrees => "degrees"
  | .erf => "erf"
  | .erfc => "erfc"
  | .exp => "exp"
  | .exp2 => "exp2"
  | .expm1 => "expm1"
  | .fabs => "fabs"
  | .gamma => "gamma"
  | .lgamma => "lgamma"
  | .log1p => "log1p"
  | .radians => "radians"
  | .sin => "sin"
  | .sinh => "sinh"
  | .sqrt => "sqrt"
  | .tan => "tan"
  | .tanh => "tanh"
  | .ulp => "ulp"

/-- The value `r` of a function at `x`, unless it shows that there is none; `overflow` is what an
infinite value at a finite argument means. -/
def checked (overflow : NoResult) (x r : Float) : Except NoResult Float :=
  if r.isNaN then .error .domain
  else if r.isInf && x.isFinite then .error overflow
  else .ok r

/-- The value at a number. -/
def valueAt (f : RealFunction) (x : Float) : Except NoResult Float :=
  match f with
  | .acos => checked .domain x x.acos
  | .acosh => checked .domain x x.acosh
  | .asin => checked .domain x x.asin
  | .asinh => checked .domain x x.asinh
  | .atan => checked .domain x x.atan
  | .atanh => checked .domain x x.atanh
  | .cbrt => checked .domain x x.cbrt
  | .cos => checked .domain x x.cos
  | .cosh => checked .range x x.cosh
  | .degrees => .ok (x * (180.0 / Special.pi))
  | .erf => .ok (Approximation.erf x)
  | .erfc => .ok (Approximation.erfc x)
  | .exp => checked .range x x.exp
  | .exp2 => checked .range x x.exp2
  | .expm1 => checked .range x (Approximation.expLessOne x)
  | .fabs => .ok x.abs
  | .gamma => Special.gamma x
  | .lgamma => Special.logGamma x
  | .log1p => checked .domain x (Approximation.logOnePlus x)
  | .radians => .ok (x * (Special.pi / 180.0))
  | .sin => checked .domain x x.sin
  | .sinh => checked .range x x.sinh
  | .sqrt => checked .domain x x.sqrt
  | .tan => checked .domain x x.tan
  | .tanh => checked .domain x x.tanh
  | .ulp => .ok (Binary.unitInLastPlace x)

def value (f : RealFunction) (x : Double) : Except NoResult Double :=
  match f with
  | .fabs => .ok x.abs
  | f => x.through f.valueAt

end RealFunction

/-! ## Two arguments -/

inductive RealPairFunction where
  | atan2 | copysign | fmod | nextafter | pow | remainder
  deriving Repr, DecidableEq

namespace RealPairFunction

def name : RealPairFunction → String
  | .atan2 => "atan2"
  | .copysign => "copysign"
  | .fmod => "fmod"
  | .nextafter => "nextafter"
  | .pow => "pow"
  | .remainder => "remainder"

/-- Whether a float is an odd integer. -/
def isOdd (y : Float) : Bool :=
  match (Binary.ofFloat y).toInt? with
  | some n => n.natAbs % 2 == 1
  | none => false

/-- Powers with an infinite argument. -/
def powInfinite (x y : Float) : Float :=
  if x.isInf then
    if 0.0 < y then if isOdd y then x else x.abs
    else if y == 0.0 then 1.0
    else if isOdd y then Binary.copySign 0.0 x else 0.0
  else if x.abs == 1.0 then 1.0
  else if 0.0 < y && 1.0 < x.abs then y
  else if y < 0.0 && x.abs < 1.0 then -y
  else 0.0

/-- Powers of numbers. -/
def powNumber (x y : Float) : Except NoResult Float :=
  if x.isFinite && y.isFinite then
    let r := x.pow y
    if r.isNaN then .error .domain
    else if r.isInf then .error (if x == 0.0 then .domain else .range)
    else .ok r
  else .ok (powInfinite x y)

/-- Every power with exponent zero and every power of one is one. -/
def power (x y : Double) : Except NoResult Double :=
  if y.isZero || x.toFloat == 1.0 then .ok (.float 1.0) else x.throughPair powNumber y

/-- Of two arguments that are not numbers the first is the value, save that `nextafter` takes the
second. -/
def value (f : RealPairFunction) (x y : Double) : Except NoResult Double :=
  match f with
  | .atan2 =>
    .ok (if x.isNaN || y.isNaN then .positiveNaN else .float (x.toFloat.atan2 y.toFloat))
  | .copysign => .ok (x.copySign y)
  | .fmod => x.throughPair Binary.truncatedRemainder y
  | .nextafter => y.throughPair (fun y x => .ok (Binary.nextAfter x y)) x
  | .pow => power x y
  | .remainder => x.throughPair Binary.nearestRemainder y

end RealPairFunction

/-! ## Tests -/

inductive RealTest where
  | isfinite | isinf | isnan
  deriving Repr, DecidableEq

namespace RealTest

def name : RealTest → String
  | .isfinite => "isfinite"
  | .isinf => "isinf"
  | .isnan => "isnan"

def value : RealTest → Double → Bool
  | .isfinite, x => x.toFloat.isFinite
  | .isinf, x => x.toFloat.isInf
  | .isnan, x => x.isNaN

end RealTest

/-- Whether two floats differ by at most `1e-9` of the larger. -/
def isClose (a b : Float) : Bool :=
  if a == b then true
  else if a.isInf || b.isInf then false
  else
    let gap := (b - a).abs
    gap ≤ (1e-9 * b).abs || gap ≤ (1e-9 * a).abs || gap ≤ 0.0

/-! ## Logarithms -/

inductive Logarithm where
  | natural | binary | decimal
  deriving Repr, DecidableEq

namespace Logarithm

def name : Logarithm → String
  | .natural => "log"
  | .binary => "log2"
  | .decimal => "log10"

def ofPositive : Logarithm → Float → Float
  | .natural, x => x.log
  | .binary, x => x.log2
  | .decimal, x => x.log10

/-- The logarithm of a number.  An integer past the floats is split into a fraction, at least one half
and below one also after rounding, and a power of two. -/
def value (l : Logarithm) : Number → Except NoResult Double
  | .float x =>
    x.through fun x => if 0.0 < x then .ok (l.ofPositive x) else .error .domain
  | .integer n =>
    if n ≤ 0 then .error .domain
    else
      match Binary.ofInt? n with
      | some x => .ok (.float (l.ofPositive x))
      | none =>
        let width := n.natAbs.log2 + 1
        let rounded := Binary.nearest false n.natAbs (Nat.pow 2 width)
        let (fraction, carry) := Binary.splitExponent (.float rounded)
        let exponent := width + carry.toNat
        .ok (.float (l.ofPositive fraction.toFloat + l.ofPositive 2.0 * exponent.toFloat))

/-- The logarithm to another base, from the logarithms of number and base. -/
def quotient (n d : Double) : Except NoResult Double :=
  if d.isZero then .error .divisionByZero else .ok (n.div d)

end Logarithm

end SmallLisp
