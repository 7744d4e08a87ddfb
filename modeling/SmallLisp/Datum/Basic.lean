import SmallLisp.Number.Decimal

/-!
Data as they are read: numbers, symbols and lists.

`Datum.atom` decides between the first two: a token that denotes a decimal is the nearest float,
any other token is a symbol with that name.
-/

namespace SmallLisp

inductive Datum where
  | number (x : Float)
  | symbol (name : String)
  | list (items : List Datum)

namespace Datum

def atom (token : String) : Datum :=
  match Decimal.ofChars? token.toList with
  | some d => .number d.toFloat
  | none => .symbol token

end Datum

end SmallLisp
