import SmallLisp.Builtin.Argument
import SmallLisp.Value.Equality

/-!
Lists, sequencing and predicates.
-/

namespace SmallLisp.Lists

def car (depth : Nat) : List Value → Attempt Answer :=
  Argument.one ⟨"car", ["xs"]⟩ fun xs => do
    match ← Argument.items depth "car" xs with
    | [] => Attempt.fail (.type (.emptyList "car"))
    | x :: _ => return .value x

def cdr (depth : Nat) : List Value → Attempt Answer :=
  Argument.one ⟨"cdr", ["xs"]⟩ fun xs => do
    match ← Argument.items depth "cdr" xs with
    | [] => Attempt.fail (.type (.emptyList "cdr"))
    | _ :: rest => return .list rest

def cons (depth : Nat) : List Value → Attempt Answer :=
  Argument.two ⟨"cons", ["head", "tail"]⟩ fun head tail => do
    return .list (head :: (← Argument.items depth "cons" tail))

def append (depth : Nat) (args : List Value) : Attempt Answer := do
  return .list (← args.mapM (Argument.items depth "append")).flatten

def length (depth : Nat) : List Value → Attempt Answer :=
  Argument.one ⟨"length", ["xs"]⟩ fun xs => do
    let items ← Argument.items depth "length" xs
    return .value (.float (Binary.nearest false items.length 1))

/-- The last argument. -/
def begin (args : List Value) : Answer := .value (args.getLast?.getD .unspecified)

/-! ## Predicates -/

def truth (b : Bool) : Attempt Answer := .ok (.value (.bool b))

def eq : List Value → Attempt Answer :=
  Argument.two ⟨"is_eq", ["a", "b"]⟩ fun a b => truth (a.isEq b)

def equal (depth : Nat) : List Value → Attempt Answer :=
  Argument.two ⟨"is_equal", ["a", "b"]⟩ fun a b =>
    match a.isEqual? depth b with
    | some answer => truth answer
    | none => .error .depth

def not : List Value → Attempt Answer :=
  Argument.one ⟨"logical_not", ["x"]⟩ fun x => truth x.isFalse

def isNull : List Value → Attempt Answer :=
  Argument.one ⟨"is_null", ["x"]⟩ fun
    | .list _ items => truth items.isEmpty
    | _ => truth false

def isNumber : List Value → Attempt Answer :=
  Argument.one ⟨"is_number", ["x"]⟩ fun
    | .number _ => truth true
    | _ => truth false

def kindSignature : Signature := ⟨"register.<locals>.<lambda>", ["x"]⟩

def isList : List Value → Attempt Answer :=
  Argument.one kindSignature fun
    | .list _ _ => truth true
    | _ => truth false

def isProcedure : List Value → Attempt Answer :=
  Argument.one kindSignature fun
    | .primitive _ _ => truth true
    | .closure _ _ _ _ => truth true
    | _ => truth false

def isSymbol : List Value → Attempt Answer :=
  Argument.one kindSignature fun
    | .symbol _ => truth true
    | _ => truth false

end SmallLisp.Lists
