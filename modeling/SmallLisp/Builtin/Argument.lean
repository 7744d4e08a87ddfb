import SmallLisp.Fault

/-!
Arguments and results of builtin procedures.

A builtin that needs nothing from the store maps its arguments to an `Answer` or a `Refusal`; neither
holds identities, which are given when the answer is settled.  A refusal that is not yet an error of
the language becomes one under the name of the builtin.
-/

namespace SmallLisp

/-- What a builtin gives: a value, or the items of a new list or tuple. -/
inductive Answer where
  | value (v : Value)
  | list (items : List Value)
  | tuple (items : List Value)

inductive Refusal where
  | error (e : LispError)
  | misuse (m : Misuse)
  | noResult (r : NoResult)
  | depth

/-- The fault that a refusal by the named builtin is. -/
def Refusal.toFault (name : String) : Refusal → Fault
  | .error e => .error e
  | .misuse m => .error (.type (.misuse name m))
  | .noResult r => .error (.noResult name r)
  | .depth => .depth

abbrev Attempt (α : Type) := Except Refusal α

namespace Attempt

def misuse {α : Type} (m : Misuse) : Attempt α := .error (.misuse m)

def fail {α : Type} (e : LispError) : Attempt α := .error (.error e)

def ofResult {α : Type} : Except NoResult α → Attempt α
  | .ok a => .ok a
  | .error r => .error (.noResult r)

def ofText : Except TextFault String → Attempt String
  | .ok s => .ok s
  | .error .tooDeep => .error .depth
  | .error .integerTooLong => .error (.noResult .integerTextTooLong)

end Attempt

/-! ## Numbers of arguments -/

/-- A procedure's name and parameters as messages give them. -/
structure Signature where
  callee : String
  params : List String

/-- The misuse of calling with `given` arguments, which is not the number of parameters. -/
def Signature.wrongCount (s : Signature) (given : Nat) : Misuse :=
  if given < s.params.length then .missing s.callee (s.params.drop given)
  else .surplus s.callee s.params.length given

namespace Argument

def one {α : Type} (s : Signature) (f : Value → Attempt α) : List Value → Attempt α
  | [x] => f x
  | args => Attempt.misuse (s.wrongCount args.length)

def two {α : Type} (s : Signature) (f : Value → Value → Attempt α) : List Value → Attempt α
  | [x, y] => f x y
  | args => Attempt.misuse (s.wrongCount args.length)

/-- One argument of a mathematical function. -/
def mathOne {α : Type} (name : String) (f : Value → Attempt α) : List Value → Attempt α
  | [x] => f x
  | args => Attempt.misuse (.oneArgument name args.length)

/-- Two arguments of a mathematical function. -/
def mathTwo {α : Type} (name : String) (f : Value → Value → Attempt α) : List Value → Attempt α
  | [x, y] => f x y
  | args => Attempt.misuse (.exactCount name 2 args.length)

/-! ## Kinds of arguments -/

/-- A number, which a truth value is not. -/
def number (depth : Nat) (operation : String) : Value → Attempt Number
  | .number x => .ok x
  | v => do Attempt.fail (.type (.notNumber operation (← Attempt.ofText (v.print depth))))

def items (depth : Nat) (operation : String) : Value → Attempt (List Value)
  | .list _ items => .ok items
  | v => do Attempt.fail (.type (.notList operation (← Attempt.ofText (v.print depth))))

/-- A number among numbers and truth values. -/
def numeric (v : Value) : Attempt Number :=
  match v.numeric? with
  | some x => .ok x
  | none => Attempt.misuse (.notReal v.typeName)

def real (v : Value) : Attempt Double := do Attempt.ofResult (← numeric v).toDouble

/-- An integer, also as a whole float or a truth value. -/
def integer (v : Value) : Attempt Int :=
  match v.numeric? with
  | some (.integer n) => .ok n
  | some (.float x) =>
    match (Binary.ofFloat x.toFloat).toInt? with
    | some n => .ok n
    | none => Attempt.misuse (.notInteger v.typeName)
  | none => Attempt.misuse (.notInteger v.typeName)

/-- The items of a list or tuple, or the characters of a text. -/
def sequence : Value → Attempt (List Value)
  | .list _ items => .ok items
  | .tuple _ items => .ok items
  | .text s => .ok (s.toList.map fun c => .text (String.singleton c))
  | v => Attempt.misuse (.notIterable v.typeName)

end Argument

end SmallLisp
