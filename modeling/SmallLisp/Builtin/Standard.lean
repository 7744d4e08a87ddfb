import SmallLisp.Builtin.Arithmetic
import SmallLisp.Builtin.Lists
import SmallLisp.Builtin.Math
import SmallLisp.Store

/-!
The meaning of the operations and the standard bindings.
-/

namespace SmallLisp

/-- What an operation makes of its arguments; texts in messages are limited to the given depth. -/
def Operation.call (depth : Nat) : Operation → List Value → Attempt Answer
  | .math f => Math.call f
  | .add => Arithmetic.add depth
  | .sub => Arithmetic.sub depth
  | .mul => Arithmetic.mul depth
  | .div => Arithmetic.div depth
  | .compare r => Arithmetic.compare depth r
  | .max => Arithmetic.extremum depth "max" .greater
  | .min => Arithmetic.extremum depth "min" .less
  | .append => Lists.append depth
  | .car => Lists.car depth
  | .cdr => Lists.cdr depth
  | .cons => Lists.cons depth
  | .length => Lists.length depth
  | .list => fun args => .ok (.list args)
  | .begin => fun args => .ok (Lists.begin args)
  | .eq => Lists.eq
  | .equal => Lists.equal depth
  | .not => Lists.not
  | .isList => Lists.isList
  | .isNull => Lists.isNull
  | .isNumber => Lists.isNumber
  | .isProcedure => Lists.isProcedure
  | .isSymbol => Lists.isSymbol

namespace Standard

inductive Entry where
  | number (x : Float)
  | truth (b : Bool)
  | builtin (f : Builtin)

/-- The mathematical functions and constants, in order. -/
def mathEntries : List (String × Entry) :=
  [fn (.real .acos), fn (.real .acosh), fn (.real .asin), fn (.real .asinh), fn (.real .atan),
    fn (.realPair .atan2), fn (.real .atanh), fn (.real .cbrt), fn (.rounding .ceil),
    fn (.integer .comb), fn (.realPair .copysign), fn (.real .cos), fn (.real .cosh),
    fn (.real .degrees), fn .dist, ("E", .number 2.718281828459045), fn (.real .erf),
    fn (.real .erfc), fn (.real .exp), fn (.real .exp2), fn (.real .expm1), fn (.real .fabs),
    fn (.integer .factorial), fn (.rounding .floor), fn (.realPair .fmod), fn .frexp, fn .fsum,
    fn (.real .gamma), fn (.integer .gcd), fn .hypot,
    ("INF", .number (Binary.floatOfBits false Binary.infinityBits)), fn .isclose,
    fn (.test .isfinite), fn (.test .isinf), fn (.test .isnan), fn (.integer .isqrt),
    fn (.integer .lcm), fn .ldexp, fn (.real .lgamma), fn (.logarithm .natural),
    fn (.logarithm .decimal), fn (.real .log1p), fn (.logarithm .binary), fn .modf,
    ("NAN", .number (0.0 / 0.0)), fn (.realPair .nextafter), fn (.integer .perm),
    ("PI", .number Special.pi), fn (.realPair .pow), fn .prod, fn (.real .radians),
    fn (.realPair .remainder), fn (.real .sin), fn (.real .sinh), fn (.real .sqrt), fn (.real .tan),
    fn (.real .tanh), ("TAU", .number 6.283185307179586), fn (.rounding .trunc), fn (.real .ulp)]
where
  fn (f : MathFunction) : String × Entry := (f.name, .builtin (.operation (.math f)))

/-- The procedures of the language, in order; `f` is the frame that `env?` shows. -/
def procedures (f : FrameId) : List Builtin :=
  [.operation .add, .operation .sub, .operation .mul, .operation .div,
    .operation (.compare .greater), .operation (.compare .less), .operation (.compare .greaterEq),
    .operation (.compare .lessEq), .operation (.compare .equal), .operation .append, .apply,
    .operation .begin, .operation .car, .operation .cdr, .operation .cons, .operation .eq,
    .operation .equal, .operation .length, .operation .list, .operation .isList, .map,
    .operation .max, .operation .min, .operation .not, .operation .isNull, .operation .isNumber,
    .operation .isProcedure, .operation .isSymbol, .showFrames f]

def entries (f : FrameId) : List (String × Entry) :=
  mathEntries ++ (procedures f).map (fun b => (b.name, .builtin b)) ++
    [("#t", .truth true), ("#f", .truth false)]

end Standard

namespace Eval

def makeBuiltin (f : Builtin) : Eval Value := return .primitive (← freshMark) f

def makeEntry : Standard.Entry → Eval Value
  | .number x => pure (.float x)
  | .truth b => pure (.bool b)
  | .builtin f => makeBuiltin f

/-- Bind the standard names in a frame. -/
def register (f : FrameId) : Eval Unit :=
  (Standard.entries f).forM fun (name, entry) => do
    let v ← makeEntry entry
    modify fun s => s.insert f (.symbol name) v

/-- A new outermost frame with the standard names. -/
def standardFrame : Eval FrameId := do
  let f ← newFrame [] [] none
  register f
  return f

end Eval

end SmallLisp
