import SmallLisp.Number.Binary

/-!
Floats that keep the sign of what is not a number.

`Float` has one value that is not a number, and here it stands for the positive one; `Double` adds
the negative one.  An operation keeps the first operand that is not a number, sign included, and a
result that is none from operands that are all numbers is negative.
-/

namespace SmallLisp

inductive Double where
  | float (x : Float)
  | negativeNaN

namespace Double

def positiveNaN : Double := .float (0.0 / 0.0)

def toFloat : Double → Float
  | .float x => x
  | .negativeNaN => 0.0 / 0.0

def isNaN (x : Double) : Bool := x.toFloat.isNaN

/-- A result from operands that are numbers. -/
def ofResult (r : Float) : Double := if r.isNaN then .negativeNaN else .float r

/-! ## Signs -/

def isNegative : Double → Bool
  | .float x => !x.isNaN && Binary.isNegative x
  | .negativeNaN => true

def neg : Double → Double
  | .float x => if x.isNaN then .negativeNaN else .float (-x)
  | .negativeNaN => positiveNaN

/-- The magnitude of `x` with the sign of `y`. -/
def copySign (x y : Double) : Double := if x.isNegative = y.isNegative then x else x.neg

def abs (x : Double) : Double := if x.isNegative then x.neg else x

/-! ## Operations -/

/-- A function of floats, carried over; it is not asked about what is not a number. -/
def through {ε : Type} (f : Float → Except ε Float) (x : Double) : Except ε Double :=
  if x.isNaN then .ok x else (f x.toFloat).map ofResult

/-- A function of two floats, carried over in the same way. -/
def throughPair {ε : Type} (f : Float → Float → Except ε Float) (x y : Double) :
    Except ε Double :=
  if x.isNaN then .ok x
  else if y.isNaN then .ok y
  else (f x.toFloat y.toFloat).map ofResult

def combine (f : Float → Float → Float) (x y : Double) : Double :=
  if x.isNaN then x
  else if y.isNaN then y
  else ofResult (f x.toFloat y.toFloat)

def add : Double → Double → Double := combine (· + ·)

def sub : Double → Double → Double := combine (· - ·)

def mul : Double → Double → Double := combine (· * ·)

def div : Double → Double → Double := combine (· / ·)

def isZero (x : Double) : Bool := x.toFloat == 0.0

end Double

end SmallLisp
