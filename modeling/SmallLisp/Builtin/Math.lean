import SmallLisp.Builtin.Argument
import SmallLisp.Number.Norm
import SmallLisp.Number.Sum

/-!
The mathematical functions on values: numbers of arguments, their kinds, and the order in which these
are checked.
-/

namespace SmallLisp.Math

def ofDouble (r : Except NoResult Double) : Attempt Answer := do
  return .value (.double (← Attempt.ofResult r))

def ofInt (r : Except NoResult Int) : Attempt Answer := do
  return .value (.integer (← Attempt.ofResult r))

/-! ## Rounding and logarithms -/

def rounding (r : Rounding) : List Value → Attempt Answer :=
  Argument.mathOne r.name fun v =>
    match r, v.numeric? with
    | r, some x => ofInt (x.round r)
    | .trunc, none => Attempt.misuse (.notRounded v.typeName)
    | _, none => Attempt.misuse (.notReal v.typeName)

def logOf (l : Logarithm) (v : Value) : Attempt Double := do
  Attempt.ofResult (l.value (← Argument.numeric v))

def logarithm (l : Logarithm) (args : List Value) : Attempt Answer :=
  match l, args with
  | l, [x] => do return .value (.double (← logOf l x))
  | .natural, [x, base] => do
    let n ← logOf .natural x
    let d ← logOf .natural base
    ofDouble (Logarithm.quotient n d)
  | .natural, _ => Attempt.misuse (.oneOrTwo "log")
  | l, args => Attempt.misuse (.oneArgument l.name args.length)

/-! ## Functions on integers -/

def integer (f : IntegerFunction) (args : List Value) : Attempt Answer :=
  match f with
  | .factorial =>
    Argument.mathOne f.name (fun n => do ofInt (Whole.factorial (← Argument.integer n))) args
  | .isqrt => Argument.mathOne f.name (fun n => do ofInt (Whole.isqrt (← Argument.integer n))) args
  | .comb =>
    Argument.mathTwo f.name (fun n k => do
      let n ← Argument.integer n
      let k ← Argument.integer k
      ofInt (Whole.comb n k)) args
  | .perm =>
    match args with
    | [] => Attempt.misuse (.leastCount f.name 1 0)
    | [n] => do ofInt (Whole.factorial (← Argument.integer n))
    | [n, .nothing] => do ofInt (Whole.factorial (← Argument.integer n))
    | [n, k] => do
      let n ← Argument.integer n
      let k ← Argument.integer k
      ofInt (Whole.perm n k)
    | args => Attempt.misuse (.mostCount f.name 2 args.length)
  | .gcd => do ofInt (.ok (Whole.gcd (← args.mapM Argument.integer)))
  | .lcm => do ofInt (.ok (Whole.lcm (← args.mapM Argument.integer)))

/-! ## Parts of floats -/

def ldexp : List Value → Attempt Answer :=
  Argument.mathTwo "ldexp" fun x k => do
    let x ← Argument.real x
    match k with
    | .number (.integer k) => ofDouble (Binary.scaleBy x k)
    | .bool b => ofDouble (Binary.scaleBy x (if b then 1 else 0))
    | _ => Attempt.misuse .exponentNotInteger

def frexp : List Value → Attempt Answer :=
  Argument.mathOne "frexp" fun x => do
    let (m, e) := Binary.splitExponent (← Argument.real x)
    return .tuple [.double m, .integer e]

def modf : List Value → Attempt Answer :=
  Argument.mathOne "modf" fun x => do
    let (fraction, whole) := Binary.splitFraction (← Argument.real x)
    return .tuple [.double fraction, .double whole]

/-! ## Many floats -/

def isclose : List Value → Attempt Answer
  | [a, b] => do
    let a ← Argument.real a
    let b ← Argument.real b
    return .value (.bool (isClose a.toFloat b.toFloat))
  | [] => Attempt.misuse (.required "isclose" "a" 1)
  | [_] => Attempt.misuse (.required "isclose" "b" 2)
  | args =>
    if args.length ≤ 4 then Attempt.misuse (.exactPositional "isclose" 2 args.length)
    else Attempt.misuse (.mostArguments "isclose" 4 args.length)

def hypot (args : List Value) : Attempt Answer := do
  let xs ← args.mapM Argument.real
  return .value (.float (Norm.norm (xs.map Double.toFloat)))

/-- Differences of coordinates, pair by pair. -/
def differences : List Value → List Value → Attempt (List Float)
  | p :: ps, q :: qs => do
    let x ← Argument.real p
    let y ← Argument.real q
    return (x.toFloat - y.toFloat) :: (← differences ps qs)
  | _, _ => .ok []

def dist : List Value → Attempt Answer :=
  Argument.mathTwo "dist" fun p q => do
    let ps ← Argument.sequence p
    let qs ← Argument.sequence q
    if ps.length = qs.length then return .value (.float (Norm.norm (← differences ps qs)))
    else .error (.noResult .dimensions)

def fsum : List Value → Attempt Answer :=
  Argument.mathOne "fsum" fun v => do
    let items ← Argument.sequence v
    let total ← items.foldlM (fun s item => do
      Attempt.ofResult (Summation.add s (← Argument.real item))) Summation.empty
    ofDouble total.result

/-! ## Products -/

/-- What a product has come to: a number, or a sequence repeated. -/
inductive Product where
  | number (x : Number)
  | list (items : List Value)
  | tuple (marks : List Mark) (items : List Value)
  | text (s : String)

namespace Product

def typeName : Product → String
  | .number (.float _) => "float"
  | .number (.integer _) => "int"
  | .list _ => "list"
  | .tuple _ _ => "tuple"
  | .text _ => "str"

/-- The sequence that a value is. -/
def ofSequence? : Value → Option Product
  | .list _ items => some (.list items)
  | .tuple marks items => some (.tuple marks items)
  | .text s => some (.text s)
  | _ => none

/-- `n` copies of a list in a row; none for a negative number. -/
def copies {α : Type} (n : Int) (items : List α) : List α :=
  if items.isEmpty then [] else (List.replicate n.toNat items).flatten

def repeated (n : Int) (p : Product) : Attempt Product :=
  if n < -(sizeLimit : Int) - 1 || (sizeLimit : Int) < n then .error (.noResult .repetitionTooLarge)
  else
    match p with
    | .number x => .ok (.number x)
    | .list items => .ok (.list (copies n items))
    | .tuple marks items => .ok (.tuple (copies n marks) (copies n items))
    | .text s => .ok (.text (String.ofList (copies n s.toList)))

def mul (p : Product) (v : Value) : Attempt Product :=
  match p, v.numeric?, ofSequence? v with
  | .number x, some y, _ => do return .number (← Attempt.ofResult (x.mul y))
  | .number (.integer n), none, some q => repeated n q
  | .number (.float _), none, some _ => Attempt.misuse (.repetition "float")
  | .number _, none, none => Attempt.misuse (.product p.typeName v.typeName)
  | p, some (.integer n), _ => repeated n p
  | _, _, _ => Attempt.misuse (.repetition v.typeName)

def answer : Product → Answer
  | .number x => .value (.number x)
  | .list items => .list items
  | .tuple marks items => .value (.tuple marks items)
  | .text s => .value (.text s)

end Product

def prod : List Value → Attempt Answer
  | [v] => do
    let items ← Argument.sequence v
    return (← items.foldlM Product.mul (.number (.integer 1))).answer
  | args =>
    if args.length ≤ 2 then Attempt.misuse (.exactPositional "prod" 1 args.length)
    else Attempt.misuse (.mostArguments "prod" 2 args.length)

/-! ## All of them -/

def call (f : MathFunction) : List Value → Attempt Answer :=
  match f with
  | .real f => Argument.mathOne f.name fun x => do ofDouble (f.value (← Argument.real x))
  | .realPair f =>
    Argument.mathTwo f.name fun x y => do
      let x ← Argument.real x
      let y ← Argument.real y
      ofDouble (f.value x y)
  | .test t => Argument.mathOne t.name fun x => do
      return .value (.bool (t.value (← Argument.real x)))
  | .rounding r => rounding r
  | .integer f => integer f
  | .logarithm l => logarithm l
  | .frexp => frexp
  | .ldexp => ldexp
  | .modf => modf
  | .isclose => isclose
  | .hypot => hypot
  | .dist => dist
  | .fsum => fsum
  | .prod => prod

end SmallLisp.Math
