import SmallLisp.Number.Real
import SmallLisp.Number.Whole

/-!
The builtin procedures and the names under which they are known.
-/

namespace SmallLisp

/-- Names a frame of bindings. -/
abbrev FrameId := Nat

/-- The mathematical functions, by the shape of their arguments. -/
inductive MathFunction where
  | real (f : RealFunction)
  | realPair (f : RealPairFunction)
  | test (f : RealTest)
  | rounding (r : Rounding)
  | integer (f : IntegerFunction)
  | logarithm (l : Logarithm)
  | frexp | ldexp | modf | isclose | hypot | dist | fsum | prod
  deriving Repr, DecidableEq

def MathFunction.name : MathFunction → String
  | .real f => f.name
  | .realPair f => f.name
  | .test f => f.name
  | .rounding r => r.name
  | .integer f => f.name
  | .logarithm l => l.name
  | .frexp => "frexp"
  | .ldexp => "ldexp"
  | .modf => "modf"
  | .isclose => "isclose"
  | .hypot => "hypot"
  | .dist => "dist"
  | .fsum => "fsum"
  | .prod => "prod"

/-- The builtins that compute from their arguments alone. -/
inductive Operation where
  | math (f : MathFunction)
  | add | sub | mul | div
  | compare (r : Number.Relation)
  | max | min
  | append | car | cdr | cons | length | list
  | begin
  | eq | equal | not
  | isList | isNull | isNumber | isProcedure | isSymbol
  deriving Repr, DecidableEq

def Operation.name : Operation → String
  | .math f => f.name
  | .add => "+"
  | .sub => "-"
  | .mul => "*"
  | .div => "/"
  | .compare r => r.name
  | .max => "max"
  | .min => "min"
  | .append => "append"
  | .car => "car"
  | .cdr => "cdr"
  | .cons => "cons"
  | .length => "length"
  | .list => "list"
  | .begin => "begin"
  | .eq => "eq?"
  | .equal => "equal?"
  | .not => "not"
  | .isList => "list?"
  | .isNull => "null?"
  | .isNumber => "number?"
  | .isProcedure => "procedure?"
  | .isSymbol => "symbol?"

inductive Builtin where
  | operation (op : Operation)
  | map
  | apply
  /-- Shows the bindings along the chain of a frame. -/
  | showFrames (frame : FrameId)
  /-- Gives its argument back and records it.  It is a fixture for tests, which bind it as `trace` to
  see what is evaluated and in which order, and no builtin that programs find bound.  The tests' own
  recorder keeps the value, which cannot fail; this one keeps the printed form, and fails for a value
  that is nested too deep or holds an integer too long to be printed. -/
  | record
  deriving Repr, DecidableEq

def Builtin.name : Builtin → String
  | .operation op => op.name
  | .map => "map"
  | .apply => "apply"
  | .showFrames _ => "env?"
  | .record => "trace"

end SmallLisp
