import SmallLisp.Datum.Reader
import SmallLisp.Value.Text

/-!
What can go wrong, by cause.

A `LispError` is an error of the language with a kind and a message.  A `Fault` is what an evaluation
ends in without a value: an error of the language, exhausted depth, or an integer that has no text.
-/

namespace SmallLisp

/-! ## Causes -/

/-- A special form with operands of the wrong number or shape; texts are described values. -/
inductive FormFault where
  | quoteOperands
  | ifOperands
  | defineOperands
  | defineName (got : String)
  | lambdaOperands
  | lambdaParameters (got : String)
  | lambdaRepeated
  | notSymbol (got : String)
  deriving Repr, DecidableEq

def FormFault.message : FormFault → String
  | .quoteOperands => "quote expects exactly 1 argument"
  | .ifOperands => "if requires a test, a consequent and an alternative"
  | .defineOperands => "define requires exactly 2 arguments"
  | .defineName got => "define expects a symbol, got " ++ got
  | .lambdaOperands => "lambda requires a parameter list and a single body"
  | .lambdaParameters got => "lambda parameters must be a list of symbols, got " ++ got
  | .lambdaRepeated => "lambda parameters must be distinct"
  | .notSymbol got => "Cannot define " ++ got ++ ": not a symbol"

/-- Arguments of a builtin that are of the wrong number or kind. -/
inductive Misuse where
  | missing (callee : String) (params : List String)
  | surplus (callee : String) (takes given : Nat)
  | oneArgument (name : String) (given : Nat)
  | exactCount (name : String) (count given : Nat)
  | leastCount (name : String) (count given : Nat)
  | mostCount (name : String) (count given : Nat)
  | oneOrTwo (name : String)
  | required (callee param : String) (place : Nat)
  | exactPositional (callee : String) (count given : Nat)
  | mostArguments (callee : String) (count given : Nat)
  | notReal (kind : String)
  | notInteger (kind : String)
  | notIterable (kind : String)
  | notRounded (kind : String)
  | exponentNotInteger
  | repetition (kind : String)
  | product (left right : String)
  deriving Repr, DecidableEq

namespace Misuse

/-- A count with its noun, in the plural unless it is one. -/
def counted (n : Nat) (noun : String) : String :=
  Text.decimal n ++ " " ++ noun ++ if n = 1 then "" else "s"

/-- Names in quotes: `'a'`, `'a' and 'b'`, `'a', 'b', and 'c'`. -/
def named (params : List String) : String :=
  match params.map (fun p => "'" ++ p ++ "'") with
  | [a, b] => a ++ " and " ++ b
  | names =>
    match names.reverse with
    | last :: first :: rest => ", ".intercalate (first :: rest).reverse ++ ", and " ++ last
    | _ => "".intercalate names

def message : Misuse → String
  | .missing callee params =>
    callee ++ "() missing " ++ counted params.length "required positional argument" ++ ": " ++
      named params
  | .surplus callee takes given =>
    callee ++ "() takes " ++ counted takes "positional argument" ++ " but " ++ Text.decimal given ++
      (if given = 1 then " was given" else " were given")
  | .oneArgument name given =>
    "math." ++ name ++ "() takes exactly one argument (" ++ Text.decimal given ++ " given)"
  | .exactCount name count given =>
    name ++ " expected " ++ counted count "argument" ++ ", got " ++ Text.decimal given
  | .leastCount name count given =>
    name ++ " expected at least " ++ counted count "argument" ++ ", got " ++ Text.decimal given
  | .mostCount name count given =>
    name ++ " expected at most " ++ counted count "argument" ++ ", got " ++ Text.decimal given
  | .oneOrTwo name => "math." ++ name ++ " requires 1 to 2 arguments"
  | .required callee param place =>
    callee ++ "() missing required argument '" ++ param ++ "' (pos " ++ Text.decimal place ++ ")"
  | .exactPositional callee count given =>
    callee ++ "() takes exactly " ++ counted count "positional argument" ++ " (" ++
      Text.decimal given ++ " given)"
  | .mostArguments callee count given =>
    callee ++ "() takes at most " ++ counted count "argument" ++ " (" ++ Text.decimal given ++
      " given)"
  | .notReal kind => "must be real number, not " ++ kind
  | .notInteger kind => "'" ++ kind ++ "' object cannot be interpreted as an integer"
  | .notIterable kind => "'" ++ kind ++ "' object is not iterable"
  | .notRounded kind => "type " ++ kind ++ " doesn't define __trunc__ method"
  | .exponentNotInteger => "Expected an int as second argument to ldexp."
  | .repetition kind => "can't multiply sequence by non-int of type '" ++ kind ++ "'"
  | .product left right =>
    "unsupported operand type(s) for *: '" ++ left ++ "' and '" ++ right ++ "'"

end Misuse

/-- An expression, an operator or an argument of the wrong kind; texts are described or printed
values. -/
inductive TypeFault where
  | unknownExpression (got : String)
  | emptyCombination
  | notProcedure (got : String)
  | notNumber (operation got : String)
  | notList (operation got : String)
  | emptyList (operation : String)
  | misuse (operation : String) (m : Misuse)
  deriving Repr, DecidableEq

def TypeFault.message : TypeFault → String
  | .unknownExpression got => "unknown expression type: " ++ got
  | .emptyCombination => "cannot evaluate empty list"
  | .notProcedure got => "Cannot apply non-procedure " ++ got
  | .notNumber operation got => "All arguments to " ++ operation ++ " must be numbers, got " ++ got
  | .notList operation got => operation ++ " expects a list, got " ++ got
  | .emptyList operation => operation ++ " of empty list"
  | .misuse operation m => operation ++ ": " ++ m.message

inductive ArityFault where
  | closure (expected given : Nat)
  | atLeastOne (operation : String)
  | noLists
  deriving Repr, DecidableEq

def ArityFault.message : ArityFault → String
  | .closure expected given =>
    "Expected " ++ Text.decimal expected ++ " argument(s), got " ++ Text.decimal given
  | .atLeastOne operation => operation ++ " requires at least 1 argument"
  | .noLists => "map requires a procedure and at least 1 list"

/-! ## Errors of the language -/

inductive LispError where
  | unreadable (f : ReadFault)
  | form (f : FormFault)
  | unbound (name : String)
  | type (f : TypeFault)
  | arity (f : ArityFault)
  | exhausted
  | divisionByZero
  | noResult (operation : String) (r : NoResult)
  deriving Repr, DecidableEq

inductive ErrorKind where
  | general | syntactic | unbound | type | arity | recursion
  deriving Repr, DecidableEq

def ErrorKind.name : ErrorKind → String
  | .general => "LispyError"
  | .syntactic => "LispySyntaxError"
  | .unbound => "LispyUnboundVariable"
  | .type => "LispyTypeError"
  | .arity => "LispyArityError"
  | .recursion => "LispyRecursionError"

namespace LispError

def kind : LispError → ErrorKind
  | .unreadable _ => .syntactic
  | .form _ => .syntactic
  | .unbound _ => .unbound
  | .type _ => .type
  | .arity _ => .arity
  | .exhausted => .recursion
  | .divisionByZero => .general
  | .noResult _ _ => .general

def message : LispError → String
  | .unreadable f => f.message
  | .form f => f.message
  | .unbound name => "Undefined variable: " ++ name
  | .type f => f.message
  | .arity f => f.message
  | .exhausted => "maximum recursion depth exceeded"
  | .divisionByZero => "Division by zero"
  | .noResult operation r => operation ++ ": " ++ r.message

end LispError

/-! ## Faults -/

inductive Fault where
  | error (e : LispError)
  | depth
  | integerText
  deriving Repr, DecidableEq

def Fault.ofText : TextFault → Fault
  | .tooDeep => .depth
  | .integerTooLong => .integerText

end SmallLisp
