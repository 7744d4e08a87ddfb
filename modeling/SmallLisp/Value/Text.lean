import SmallLisp.Text.Quoted
import SmallLisp.Value.Basic

/-!
The two texts of a value.

`Value.print` is the answer of a program, `Value.describe` shows the kind of everything and is used
in messages.  Lists nested beyond the given depth and integers of too many digits have neither.
-/

namespace SmallLisp

/-- Why a value has no text. -/
inductive TextFault where
  | tooDeep
  | integerTooLong
  deriving Repr, DecidableEq

/-- The text of a number, where it has one. -/
def TextFault.ofNumber (text : Except NoResult String) : Except TextFault String :=
  match text with
  | .ok s => .ok s
  | .error _ => .error .integerTooLong

namespace Value

/-- Items between parentheses; a single one is followed by a comma. -/
def tupleText (items : List String) : String :=
  match items with
  | [item] => "(" ++ item ++ ",)"
  | items => "(" ++ ", ".intercalate items ++ ")"

mutual

def describe (depth : Nat) : Value → Except TextFault String
  | .number x => TextFault.ofNumber x.describe
  | .symbol name => .ok ("Symbol(" ++ Text.quoted name ++ ")")
  | .bool b => .ok (if b then "True" else "False")
  | .unspecified => .ok "Unspecified"
  | .list _ items =>
    match depth with
    | 0 => .error .tooDeep
    | depth + 1 => do return "[" ++ ", ".intercalate (← describeAll depth items) ++ "]"
  | .tuple _ items =>
    match depth with
    | 0 => .error .tooDeep
    | depth + 1 => do return tupleText (← describeAll depth items)
  | .primitive _ f => .ok ("<Primitive " ++ f.name ++ ">")
  | .closure _ params _ _ => .ok ("<Lambda (" ++ " ".intercalate params ++ ")>")
  | .text s => .ok (Text.quoted s)
  | .nothing => .ok "None"

def describeAll (depth : Nat) : List Value → Except TextFault (List String)
  | [] => .ok []
  | v :: rest => do
    let text ← describe depth v
    return text :: (← describeAll depth rest)

end

mutual

def print (depth : Nat) : Value → Except TextFault String
  | .number x => TextFault.ofNumber x.print
  | .symbol name => .ok name
  | .bool b => .ok (if b then "#t" else "#f")
  | .unspecified => .ok ""
  | .list _ items =>
    match depth with
    | 0 => .error .tooDeep
    | depth + 1 => do return "(" ++ " ".intercalate (← printAll depth items) ++ ")"
  | .tuple marks items => describe depth (.tuple marks items)
  | .primitive _ _ => .ok "#<builtin-procedure>"
  | .closure _ _ _ _ => .ok "#<procedure>"
  | .text s => .ok s
  | .nothing => .ok "None"

def printAll (depth : Nat) : List Value → Except TextFault (List String)
  | [] => .ok []
  | v :: rest => do
    let text ← print depth v
    return text :: (← printAll depth rest)

end

/-- The text of a name: symbols and texts stand for themselves. -/
def plain (depth : Nat) : Value → Except TextFault String
  | .symbol name => .ok name
  | .text s => .ok s
  | v => v.describe depth

end Value

end SmallLisp
