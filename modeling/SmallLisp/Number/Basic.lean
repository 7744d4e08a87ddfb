import SmallLisp.Number.Double
import SmallLisp.Number.Shortest

/-!
Numbers: floats and unbounded integers.

The order of numbers is that of their exact values, whatever their kinds, so an integer is never
rounded to be compared (`Number.compare?`, undefined only when one side is not a number).
Subtraction keeps integers exact; the other operations give floats.  Two texts exist: `print` leaves
the fraction of a whole float out, `describe` shows it.
-/

namespace SmallLisp

inductive Number where
  | float (x : Double)
  | integer (n : Int)

/-- Why an operation on arguments of the right kind has no result. -/
inductive NoResult where
  | domain
  | range
  | integerTooLargeForFloat
  | quotientTooLargeForFloat
  | divisionByZero
  | infinityToInteger
  | nanToInteger
  | oppositeInfinities
  | sumOverflow
  | dimensions
  | factorialOfNegative
  | factorialTooLarge
  | rootOfNegative
  | negativeCount
  | negativeChoice
  | choiceTooLarge
  | arrangementTooLarge
  | repetitionTooLarge
  | integerTextTooLong
  deriving Repr, DecidableEq

/-- The greatest size of a selection or a sequence. -/
def sizeLimit : Nat := Nat.pow 2 63 - 1

def NoResult.message : NoResult → String
  | .domain => "math domain error"
  | .range => "math range error"
  | .integerTooLargeForFloat => "int too large to convert to float"
  | .quotientTooLargeForFloat => "integer division result too large for a float"
  | .divisionByZero => "float division by zero"
  | .infinityToInteger => "cannot convert float infinity to integer"
  | .nanToInteger => "cannot convert float NaN to integer"
  | .oppositeInfinities => "-inf + inf in fsum"
  | .sumOverflow => "intermediate overflow in fsum"
  | .dimensions => "both points must have the same number of dimensions"
  | .factorialOfNegative => "factorial() not defined for negative values"
  | .factorialTooLarge =>
    "factorial() argument should not exceed " ++ Text.decimal sizeLimit
  | .rootOfNegative => "isqrt() argument must be nonnegative"
  | .negativeCount => "n must be a non-negative integer"
  | .negativeChoice => "k must be a non-negative integer"
  | .choiceTooLarge => "min(n - k, k) must not exceed " ++ Text.decimal sizeLimit
  | .arrangementTooLarge => "k must not exceed " ++ Text.decimal sizeLimit
  | .repetitionTooLarge => "cannot fit 'int' into an index-sized integer"
  | .integerTextTooLong =>
    "Exceeds the limit (4300 digits) for integer string conversion; " ++
      "use sys.set_int_max_str_digits() to increase the limit"

namespace Number

/-! ## Order -/

/-- A point of the number line with both ends: `mantissa · 2 ^ exponent` between the infinities. -/
inductive Place where
  | bottom
  | point (mantissa exponent : Int)
  | top

/-- Order of `a · 2 ^ i` and `b · 2 ^ j`, brought to the smaller exponent. -/
def compareScaled (a i b j : Int) : Ordering :=
  let low := min i j
  compare (a * (Nat.pow 2 (i - low).toNat : Nat)) (b * (Nat.pow 2 (j - low).toNat : Nat))

def Place.compare : Place → Place → Ordering
  | .bottom, .bottom => .eq
  | .bottom, _ => .lt
  | .top, .top => .eq
  | .top, _ => .gt
  | .point _ _, .bottom => .gt
  | .point _ _, .top => .lt
  | .point a i, .point b j => compareScaled a i b j

/-- The exact place of a number; a float that is not a number has none. -/
def place? : Number → Option Place
  | .integer n => some (.point n 0)
  | .float x =>
    match Binary.ofFloat x.toFloat with
    | .nan => none
    | .infinite negative => some (if negative then .bottom else .top)
    | .finite negative significand exponent =>
      some (.point (Binary.signed negative significand) exponent)

def compare? (a b : Number) : Option Ordering :=
  match a.place?, b.place? with
  | some p, some q => some (p.compare q)
  | _, _ => none

def isNaN (a : Number) : Bool := a.place?.isNone

/-- The five comparisons of numbers. -/
inductive Relation where
  | greater | less | greaterEq | lessEq | equal
  deriving Repr, DecidableEq

def Relation.name : Relation → String
  | .greater => ">"
  | .less => "<"
  | .greaterEq => ">="
  | .lessEq => "<="
  | .equal => "="

def Relation.allows : Relation → Ordering → Bool
  | .greater, o => o == .gt
  | .less, o => o == .lt
  | .greaterEq, o => o == .gt || o == .eq
  | .lessEq, o => o == .lt || o == .eq
  | .equal, o => o == .eq

/-- Whether a comparison holds; none does with a side that is not a number. -/
def holds (r : Relation) (a b : Number) : Bool :=
  match compare? a b with
  | some o => r.allows o
  | none => false

/-- The earliest of the numbers that no later one passes, where passing is the given relation. -/
def extremum (r : Relation) (first : Number) (rest : List Number) : Number :=
  rest.foldl (fun best x => if holds r x best then x else best) first

/-! ## Arithmetic -/

def toDouble : Number → Except NoResult Double
  | .float x => .ok x
  | .integer n =>
    match Binary.ofInt? n with
    | some x => .ok (.float x)
    | none => .error .integerTooLargeForFloat

/-- Sum of the numbers as floats, from the left, beginning with zero. -/
def sum (xs : List Number) : Except NoResult Number := do
  let total ← xs.foldlM (fun acc x => return acc.add (← x.toDouble)) (Double.float 0.0)
  return .float total

/-- Product of the numbers as floats, from the left, beginning with one. -/
def product (xs : List Number) : Except NoResult Number := do
  let total ← xs.foldlM (fun acc x => return acc.mul (← x.toDouble)) (Double.float 1.0)
  return .float total

def neg : Number → Number
  | .float x => .float x.neg
  | .integer n => .integer (-n)

def sub : Number → Number → Except NoResult Number
  | .integer m, .integer n => .ok (.integer (m - n))
  | a, b => do return .float ((← a.toDouble).sub (← b.toDouble))

def mul : Number → Number → Except NoResult Number
  | .integer m, .integer n => .ok (.integer (m * n))
  | a, b => do return .float ((← a.toDouble).mul (← b.toDouble))

/-- The quotient, correctly rounded also for two integers; there is none by zero. -/
def div : Number → Number → Except NoResult Number
  | .integer m, .integer n =>
    if n = 0 then .error .divisionByZero
    else
      match Binary.ofQuotient? m n with
      | some x => .ok (.float (.float x))
      | none => .error .quotientTooLargeForFloat
  | a, b => do
    let x ← a.toDouble
    let y ← b.toDouble
    if y.isZero then .error .divisionByZero else .ok (.float (x.div y))

/-! ## Texts -/

/-- Integers of this size or more have no text. -/
def integerTextBound : Nat := Nat.pow 10 4300

def integerText (n : Int) : Except NoResult String :=
  if n.natAbs < integerTextBound then
    .ok ((if n < 0 then "-" else "") ++ Text.decimal n.natAbs)
  else .error .integerTextTooLong

/-- The text of a float that shows its kind: a fraction or an exponent, or the name of a special
value. -/
def describeFloat (x : Float) : String :=
  match Binary.ofFloat x with
  | .nan => "nan"
  | .infinite negative => if negative then "-inf" else "inf"
  | .finite negative significand exponent =>
    Layout.standard.render (Decimal.shortest negative significand exponent)

def describe : Number → Except NoResult String
  | .float x => .ok (describeFloat x.toFloat)
  | .integer n => integerText n

/-- Whole floats below this magnitude are printed without a fraction. -/
def wholeBound : Nat := Nat.pow 10 16

/-- The text of a float as a program's answer: a whole number below `10 ^ 16` has no fraction, and
the sign of zero is kept. -/
def printFloat (x : Float) : String :=
  match (Binary.ofFloat x).toInt? with
  | some n =>
    if n.natAbs < wholeBound then
      (if Binary.isNegative x then "-" else "") ++ Text.decimal n.natAbs
    else describeFloat x
  | none => describeFloat x

def print : Number → Except NoResult String
  | .float x => .ok (printFloat x.toFloat)
  | .integer n => integerText n

end Number

end SmallLisp
