import SmallLisp.Builtin.Basic
import SmallLisp.Datum.Basic

/-!
Values: what programs compute with, expressions included.

Lists and procedures have an identity apart from what they hold, given by a `Mark`; the items of a
tuple keep theirs.  `Datum.intern` turns what was read into a value, with a mark for each list.
-/

namespace SmallLisp

/-- Tells apart objects that hold the same. -/
abbrev Mark := Nat

inductive Value where
  | number (x : Number)
  | symbol (name : String)
  | bool (b : Bool)
  | unspecified
  | list (mark : Mark) (items : List Value)
  | tuple (marks : List Mark) (items : List Value)
  | primitive (mark : Mark) (f : Builtin)
  | closure (mark : Mark) (params : List String) (body : Value) (frame : FrameId)
  | text (s : String)
  | nothing

instance : Inhabited Value := ⟨.unspecified⟩

namespace Value

def double (x : Double) : Value := .number (.float x)

def float (x : Float) : Value := .double (.float x)

def integer (n : Int) : Value := .number (.integer n)

/-- The name of a value's kind, as messages give it. -/
def typeName : Value → String
  | .number (.float _) => "float"
  | .number (.integer _) => "int"
  | .symbol _ => "Symbol"
  | .bool _ => "bool"
  | .unspecified => "UnspecifiedType"
  | .list _ _ => "list"
  | .tuple _ _ => "tuple"
  | .primitive _ _ => "Primitive"
  | .closure _ _ _ _ => "Lambda"
  | .text _ => "str"
  | .nothing => "NoneType"

def isFalse : Value → Bool
  | .bool b => !b
  | _ => false

def symbolName? : Value → Option String
  | .symbol name => some name
  | _ => none

/-- The number that a value counts as among numbers, where a truth value is one or zero. -/
def numeric? : Value → Option Number
  | .number x => some x
  | .bool b => some (.integer (if b then 1 else 0))
  | _ => none

end Value

mutual

/-- The value of a datum, its lists marked from `next` on; the result has the next free mark. -/
def Datum.intern (next : Mark) : Datum → Value × Mark
  | .number x => (.float x, next)
  | .symbol name => (.symbol name, next)
  | .list items =>
    let (values, after) := Datum.internAll (next + 1) items
    (.list next values, after)

def Datum.internAll (next : Mark) : List Datum → List Value × Mark
  | [] => ([], next)
  | d :: rest =>
    let (value, next) := d.intern next
    let (values, next) := Datum.internAll next rest
    (value :: values, next)

end

end SmallLisp
