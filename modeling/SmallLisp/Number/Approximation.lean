import SmallLisp.Number.Parts

/-!
The error function, its complement, and the exponential and logarithm near their fixed points.

Each is a quotient of polynomials, or a polynomial, on a few intervals, and the order of the float
operations is part of the definition: it decides the last bit.
-/

namespace SmallLisp.Approximation

/-! ## Polynomials -/

/-- The coefficients of even and odd power two by two, as values of linear terms at `z`. -/
def linearTerms (z : Float) : List Float → List Float
  | a :: b :: rest => (a + z * b) :: linearTerms z rest
  | cs => cs

/-- The value at `z` of a polynomial with at most ten coefficients, given by increasing power. -/
def polynomial (coefficients : List Float) (z : Float) : Float :=
  let square := z * z
  let fourth := square * square
  match linearTerms z coefficients with
  | [] => 0.0
  | t :: ts =>
    (ts.zip [square, fourth, fourth * square, fourth * fourth]).foldl
      (fun acc (t, power) => acc + power * t) t

/-! ## Error function

`small`, `middle`, `large` and `far` are the intervals below 0.84375, below 1.25, below about
`1 / 0.35` and above. -/

/-- A quotient of polynomials. -/
structure Quotient where
  numerator : List Float
  denominator : List Float

def Quotient.value (q : Quotient) (z : Float) : Float :=
  polynomial q.numerator z / polynomial q.denominator z

/-- `erf x / x - 1` in powers of the square of `x`. -/
def small : Quotient where
  numerator :=
    [1.28379167095512558561e-01, -3.25042107247001499370e-01, -2.84817495755985104766e-02,
      -5.77027029648944159157e-03, -2.37630166566501626084e-05]
  denominator :=
    [1.0, 3.97917223959155352819e-01, 6.50222499887672944485e-02, 5.08130628187576562776e-03,
      1.32494738004321644526e-04, -3.96022827877536812320e-06]

/-- `erf x - erfAtOne` in powers of `|x| - 1`. -/
def middle : Quotient where
  numerator :=
    [-2.36211856075265944077e-03, 4.14856118683748331666e-01, -3.72207876035701323847e-01,
      3.18346619901161753674e-01, -1.10894694282396677476e-01, 3.54783043256182359371e-02,
      -2.16637559486879084300e-03]
  denominator :=
    [1.0, 1.06420880400844228286e-01, 5.40397917702171048937e-01, 7.18286544141962662868e-02,
      1.26171219808761642112e-01, 1.36370839120290507362e-02, 1.19844998467991074170e-02]

/-- `log (x · erfc x) + x · x + 0.5625` in powers of the inverse square of `x`. -/
def large : Quotient where
  numerator :=
    [-9.86494403484714822705e-03, -6.93858572707181764372e-01, -1.05586262253232909814e+01,
      -6.23753324503260060396e+01, -1.62396669462573470355e+02, -1.84605092906711035994e+02,
      -8.12874355063065934246e+01, -9.81432934416914548592e+00]
  denominator :=
    [1.0, 1.96512716674392571292e+01, 1.37657754143519042600e+02, 4.34565877475229228821e+02,
      6.45387271733267880336e+02, 4.29008140027567833386e+02, 1.08635005541779435134e+02,
      6.57024977031928170135e+00, -6.04244152148580987438e-02]

/-- The same as `large`, further out. -/
def far : Quotient where
  numerator :=
    [-9.86494292470009928597e-03, -7.99283237680523006574e-01, -1.77579549177547519889e+01,
      -1.60636384855821916062e+02, -6.37566443368389627722e+02, -1.02509513161107724954e+03,
      -4.83519191608651397019e+02]
  denominator :=
    [1.0, 3.03380607434824582924e+01, 3.25792512996573918826e+02, 1.53672958608443695994e+03,
      3.19985821950859553908e+03, 2.55305040643316442583e+03, 4.74528541206955367215e+02,
      -2.24409524465858183362e+01]

/-- The error function at one, rounded to half the width of a float. -/
def erfAtOne : Float := 8.45062911510467529297e-01

/-- `2 / √π - 1`, the slope of `erf x - x` at zero. -/
def erfSlopeLessOne : Float := 1.28379167095512586316e-01

/-- A positive float with the lower half of its bits cleared, so that its square is exact. -/
def upperPart (x : Float) : Float :=
  Binary.floatOfBits false (x.toBits.toNat / Nat.pow 2 32 * Nat.pow 2 32)

/-- The complement of the error function for `x` from 1.25 on, by `large` below `limit`. -/
def erfcTail (limit x : Float) : Float :=
  let q := if x < limit then large else far
  let z := upperPart x
  (-z * z - 0.5625).exp * ((z - x) * (z + x) + q.value (1.0 / (x * x))).exp / x

def erf (x : Float) : Float :=
  let a := x.abs
  if a < 0.84375 then
    if a < 2.8480945388892178e-306 then 0.0625 * (16.0 * x + 16.0 * erfSlopeLessOne * x)
    else if a < 3.725290298461914e-09 then x + erfSlopeLessOne * x
    else x + x * small.value (x * x)
  else
    let r :=
      if a < 1.25 then erfAtOne + middle.value (a - 1.0)
      else if a < 6.0 then 1.0 - erfcTail 2.8571434020996094 a
      else 1.0
    if x < 0.0 then -r else r

def erfc (x : Float) : Float :=
  let a := x.abs
  if a < 1.3877787807814457e-17 then 1.0 - x
  else if a < 0.84375 then
    let y := small.value (x * x)
    if x < 0.25 then 1.0 - (x + x * y) else 0.5 - (x * y + (x - 0.5))
  else if a < 1.25 then
    let y := middle.value (a - 1.0)
    if x < 0.0 then 1.0 + (erfAtOne + y) else (1.0 - erfAtOne) - y
  else if x < -6.0 then 2.0
  else if 28.0 ≤ x then 0.0
  else
    let r := erfcTail 2.8571414947509766 a
    if x < 0.0 then 2.0 - r else r

/-! ## Near the fixed points -/

/-- The logarithm of two, cut so that its products with small integers are exact. -/
def logTwo : Float := 6.93147180369123816490e-01

/-- What `logTwo` lacks. -/
def logTwoRest : Float := 1.90821492927058770002e-10

/-- An integer as a float; small ones are exact. -/
def floatOfInt (k : Int) : Float := Binary.nearest (k < 0) k.natAbs 1

def powerOfTwo (k : Int) : Float := Binary.nearestScaled false 1 k

def expCoefficients : List Float :=
  [1.0, -3.33333333333331316428e-02, 1.58730158725481460165e-03, -7.93650757867487942473e-05,
    4.00821782732936239552e-06, -2.01099218183624371326e-07]

/-- An argument as `k · log 2 + x + rest`, where `x` is at most half of `log 2`. -/
structure Reduced where
  k : Int
  x : Float
  rest : Float

/-- The reduction of an argument with multiple `k`, kept in two parts. -/
def Reduced.ofParts (k : Int) (hi lo : Float) : Reduced :=
  let x := hi - lo
  ⟨k, x, (hi - x) - lo⟩

def reduce (x : Float) : Reduced :=
  let a := x.abs
  if a < 0.3465735912322998 then ⟨0, x, 0.0⟩
  else if a < 1.0397205352783203 then
    if x < 0.0 then .ofParts (-1) (x + logTwo) (-logTwoRest)
    else .ofParts 1 (x - logTwo) logTwoRest
  else
    let quotient := 1.44269504088896338700e+00 * x
    let t := if x < 0.0 then (quotient - 0.5).ceil else (quotient + 0.5).floor
    let k := (Binary.ofFloat t).toInt?.getD 0
    .ofParts k (x - t * logTwo) (t * logTwoRest)

/-- `2 ^ k · y`, in two steps because the power alone may be too large. -/
def timesPower (y : Float) (k : Int) : Float := y * powerOfTwo (k - 1) * 2.0

/-- `exp x - 1`. -/
def expLessOne (x : Float) : Float :=
  if x.isInf then if 0.0 < x then x else -1.0
  else if x ≤ -38.81622314453125 then -1.0
  else if 7.09782712893383973096e+02 < x then 1.0 / 0.0
  else if x.abs < 5.551115123125783e-17 then x
  else
    let r := reduce x
    let x := r.x
    let half := 0.5 * x
    let square := x * half
    let p := polynomial expCoefficients square
    let t := 3.0 - p * half
    let e := square * ((p - t) / (6.0 - x * t))
    if r.k = 0 then x - (x * e - square)
    else
      let e := x * (e - r.rest) - r.rest - square
      if r.k = -1 then 0.5 * (x - e) - 0.5
      else if r.k = 1 then
        if x < -0.25 then -2.0 * (e - (x + 0.5)) else 1.0 + 2.0 * (x - e)
      else if r.k ≤ -2 || 56 < r.k then timesPower (1.0 - (e - x)) r.k - 1.0
      else if r.k < 20 then timesPower (1.0 - powerOfTwo (-r.k) - (e - x)) r.k
      else timesPower (x - (e + powerOfTwo (-r.k)) + 1.0) r.k

def logCoefficients : List Float :=
  [0.0, 6.666666666666735130e-01, 3.999999999940941908e-01, 2.857142874366239149e-01,
    2.222219843214978396e-01, 1.818357216161805012e-01, 1.531383769920937332e-01,
    1.479819860511658591e-01]

/-- `1 + x` as `2 ^ k · (1 + f)` with `1 + f` between `√2 / 2` and `√2`; `rest` is what the rounding of
`1 + x` lost, in relation to it, and `isNear` says that `f` is very small. -/
structure Normalized where
  k : Int
  f : Float
  rest : Float
  isNear : Bool

def normalize (x : Float) : Normalized :=
  if -0.2928934097290039 < x && x < 0.4142136573791504 then ⟨0, x, 0.0, false⟩
  else
    let u := if x < 9007199254740992.0 then 1.0 + x else x
    let bits := u.toBits.toNat
    let k : Int := (bits / Nat.pow 2 52 : Nat) - 1023
    let rest :=
      if x < 9007199254740992.0 then (if 0 < k then 1.0 - (u - x) else x - (u - 1.0)) / u else 0.0
    let fraction := bits % Nat.pow 2 52
    let upper := fraction / Nat.pow 2 32
    if upper < 0x6a09e then
      ⟨k, Binary.floatOfBits false (1023 * Nat.pow 2 52 + fraction) - 1.0, rest, upper = 0⟩
    else
      ⟨k + 1, Binary.floatOfBits false (1022 * Nat.pow 2 52 + fraction) - 1.0, rest,
        0xffffd ≤ upper⟩

/-- `log (1 + x)`. -/
def logOnePlus (x : Float) : Float :=
  if x ≤ -1.0 then (1.0 + x).log
  else if x.isInf then x
  else if x.abs < 5.551115123125783e-17 then x
  else if x.abs < 1.862645149230957e-09 then x - x * x * 0.5
  else
    let n := normalize x
    let f := n.f
    let t := floatOfInt n.k
    let half := 0.5 * f * f
    if n.isNear then
      if f == 0.0 then t * logTwo + (n.rest + t * logTwoRest)
      else
        let r := half * (1.0 - 0.66666666666666666 * f)
        t * logTwo - ((r - (t * logTwoRest + n.rest)) - f)
    else
      let s := f / (2.0 + f)
      let r := polynomial logCoefficients (s * s)
      if n.k = 0 then f - (half - s * (half + r))
      else t * logTwo - ((half - (s * (half + r) + (t * logTwoRest + n.rest))) - f)

end SmallLisp.Approximation
