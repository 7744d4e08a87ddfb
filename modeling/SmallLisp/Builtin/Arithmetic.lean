import SmallLisp.Builtin.Argument

/-!
Arithmetic and comparison.  All arguments are checked before anything is computed.
-/

namespace SmallLisp.Arithmetic

def answer (r : Except NoResult Number) : Attempt Answer := do
  return .value (.number (← Attempt.ofResult r))

def numbers (depth : Nat) (operation : String) (args : List Value) : Attempt (List Number) :=
  args.mapM (Argument.number depth operation)

/-- At least one number. -/
def someNumbers (depth : Nat) (operation : String) (args : List Value) :
    Attempt (Number × List Number) := do
  if args.isEmpty then Attempt.fail (.arity (.atLeastOne operation))
  else
    match ← numbers depth operation args with
    | first :: rest => return (first, rest)
    | [] => Attempt.fail (.arity (.atLeastOne operation))

def add (depth : Nat) (args : List Value) : Attempt Answer := do
  answer (Number.sum (← numbers depth "+" args))

def mul (depth : Nat) (args : List Value) : Attempt Answer := do
  answer (Number.product (← numbers depth "*" args))

/-- The first number less the others; the negative of a single one. -/
def sub (depth : Nat) (args : List Value) : Attempt Answer := do
  match ← someNumbers depth "-" args with
  | (first, []) => return .value (.number first.neg)
  | (first, rest) => answer (rest.foldlM Number.sub first)

/-- A quotient; division by zero is an error of the language. -/
def divide (a b : Number) : Attempt Number :=
  match a.div b with
  | .ok x => .ok x
  | .error .divisionByZero => Attempt.fail .divisionByZero
  | .error r => .error (.noResult r)

/-- The first number divided by the others; the inverse of a single one. -/
def div (depth : Nat) (args : List Value) : Attempt Answer := do
  match ← someNumbers depth "/" args with
  | (first, []) => return .value (.number (← divide (.float (.float 1.0)) first))
  | (first, rest) => return .value (.number (← rest.foldlM divide first))

def compareSignature : Signature := ⟨"_comparison.<locals>.compare", ["a", "b"]⟩

def compare (depth : Nat) (r : Number.Relation) : List Value → Attempt Answer :=
  Argument.two compareSignature fun a b => do
    let x ← Argument.number depth r.name a
    let y ← Argument.number depth r.name b
    return .value (.bool (Number.holds r x y))

def extremum (depth : Nat) (operation : String) (r : Number.Relation) (args : List Value) :
    Attempt Answer := do
  let (first, rest) ← someNumbers depth operation args
  return .value (.number (Number.extremum r first rest))

end SmallLisp.Arithmetic
