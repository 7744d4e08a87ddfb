import SmallLisp.Number.Parts

/-!
The gamma function and its logarithm, by Lanczos' rational approximation with thirteen terms and the
reflection formula.
-/

namespace SmallLisp.Special

def pi : Float := 3.141592653589793

def lanczosShift : Float := 6.024680040776729583740234375

def lanczosShiftLessHalf : Float := 5.524680040776729583740234375

/-- Coefficients of numerator and denominator, by increasing power. -/
def lanczosCoefficients : List (Float × Float) :=
  [(23531376880.410759688572007674451636754734846804940, 0.0),
    (42919803642.649098768957899047001988850926355848959, 39916800.0),
    (35711959237.355668049440185451547166705960488635843, 120543840.0),
    (17921034426.037209699919755754458931112671403265390, 150917976.0),
    (6039542586.3520280050642916443072979210699388420708, 105258076.0),
    (1439720407.3117216736632230727949123939715485786372, 45995730.0),
    (248874557.86205415651146038641322942321632125127801, 13339535.0),
    (31426415.585400194380614231628318205362874684987640, 2637558.0),
    (2876370.6289353724412254090516208496135991145378768, 357423.0),
    (186056.26539522349504029498971604569928220784236328, 32670.0),
    (8071.6720023658162106380029022722506138218516325024, 1925.0),
    (210.82427775157934587250973392071336271166969580291, 66.0),
    (2.5066282746310002701649081771338373386264310793408, 1.0)]

/-- Lanczos' sum for positive `x`, in powers of `x` or of its inverse so that nothing overflows. -/
def lanczosSum (x : Float) : Float :=
  let (n, d) :=
    if x < 5.0 then
      lanczosCoefficients.foldr (fun (a, b) (n, d) => (n * x + a, d * x + b)) (0.0, 0.0)
    else
      lanczosCoefficients.foldl (fun (n, d) (a, b) => (n / x + a, d / x + b)) (0.0, 0.0)
  n / d

/-- `sin (π x)`, reduced exactly before the multiplication by `π`. -/
def sinPi (x : Float) : Float :=
  match Binary.truncatedRemainder x.abs 2.0 with
  | .error _ => x
  | .ok y =>
    let quarter := (2.0 * y).round
    let r :=
      if quarter == 0.0 then (pi * y).sin
      else if quarter == 1.0 then (pi * (y - 0.5)).cos
      else if quarter == 2.0 then (pi * (1.0 - y)).sin
      else if quarter == 3.0 then -(pi * (y - 1.5)).cos
      else (pi * (y - 2.0)).sin
    Binary.copySign 1.0 x * r

def isWhole (x : Float) : Bool := (Binary.ofFloat x).toInt?.isSome

/-- The factorials of `0` to `22`, which are exact. -/
def factorials : List Float :=
  [1.0, 1.0, 2.0, 6.0, 24.0, 120.0, 720.0, 5040.0, 40320.0, 362880.0, 3628800.0, 39916800.0,
    479001600.0, 6227020800.0, 87178291200.0, 1307674368000.0, 20922789888000.0, 355687428096000.0,
    6402373705728000.0, 121645100408832000.0, 2432902008176640000.0, 51090942171709440000.0,
    1124000727777607680000.0]

/-- The gamma function where neither a table nor an asymptotic value applies. -/
def gammaLanczos (x : Float) : Float :=
  let a := x.abs
  let y := a + lanczosShiftLessHalf
  let z :=
    if lanczosShiftLessHalf < a then (y - a) - lanczosShiftLessHalf
    else (y - lanczosShiftLessHalf) - a
  let z := z * lanczosShift / y
  if x < 0.0 then
    let r := -pi / sinPi a / a * y.exp / lanczosSum a
    let r := r - z * r
    if a < 140.0 then r / y.pow (a - 0.5)
    else
      let p := y.pow (a / 2.0 - 0.25)
      r / p / p
  else
    let r := lanczosSum a / y.exp
    let r := r + z * r
    if a < 140.0 then r * y.pow (a - 0.5)
    else
      let p := y.pow (a / 2.0 - 0.25)
      r * p * p

/-- A result that is infinite is out of range. -/
def inRange (r : Float) : Except NoResult Float :=
  if r.isInf then .error .range else .ok r

def gamma (x : Float) : Except NoResult Float :=
  if x.isInf then
    if 0.0 < x then .ok x else .error .domain
  else if x == 0.0 then .error .domain
  else if isWhole x && x < 0.0 then .error .domain
  else if isWhole x && x ≤ 23.0 then
    .ok (factorials.getD (x.toUInt64.toNat - 1) 1.0)
  else if x.abs < 1e-20 then inRange (1.0 / x)
  else if 200.0 < x.abs then
    if x < 0.0 then .ok (0.0 / sinPi x) else .error .range
  else inRange (gammaLanczos x)

def logPi : Float := 1.1447298858494002

/-- Logarithm of the magnitude of the gamma function. -/
def logGamma (x : Float) : Except NoResult Float :=
  if x.isInf then .ok x.abs
  else if isWhole x && x ≤ 0.0 then .error .domain
  else if isWhole x && x ≤ 2.0 then .ok 0.0
  else if x.abs < 1e-20 then .ok (-x.abs.log)
  else
    let a := x.abs
    let r := (lanczosSum a).log - lanczosShift
    let r := r + (a - 0.5) * ((a + lanczosShift - 0.5).log - 1.0)
    inRange (if x < 0.0 then logPi - (sinPi a).abs.log - a.log - r else r)

end SmallLisp.Special
