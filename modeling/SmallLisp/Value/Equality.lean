import SmallLisp.Value.Basic

/-!
Equality of values.

`Value.same` compares what values hold; `Value.isEq` compares lists and procedures by identity;
`Value.isEqual?` looks into lists, up to a depth.
-/

namespace SmallLisp.Value

mutual

/-- Whether two values hold the same.  Truth values count as numbers, and procedures are the same
only if they are identical. -/
def same : Value → Value → Bool
  | .number x, v =>
    match v.numeric? with
    | some y => Number.holds .equal x y
    | none => false
  | .bool b, v =>
    match v.numeric? with
    | some y => Number.holds .equal (.integer (if b then 1 else 0)) y
    | none => false
  | .symbol a, .symbol b => a == b
  | .unspecified, .unspecified => true
  | .text a, .text b => a == b
  | .nothing, .nothing => true
  | .primitive m _, .primitive n _ => m == n
  | .closure m _ _ _, .closure n _ _ _ => m == n
  | .list m xs, .list n ys => m == n || sameItems xs ys
  | .tuple ms xs, .tuple ns ys => sameMarked ms xs ns ys
  | _, _ => false

def sameItems : List Value → List Value → Bool
  | [], [] => true
  | x :: xs, y :: ys => same x y && sameItems xs ys
  | _, _ => false

/-- Items that are identical or hold the same. -/
def sameMarked : List Mark → List Value → List Mark → List Value → Bool
  | _, [], _, [] => true
  | m :: ms, x :: xs, n :: ns, y :: ys => (m == n || same x y) && sameMarked ms xs ns ys
  | _, _, _, _ => false

end

/-- Identity for lists and procedures, equality of what is held for other values of one kind.
Numbers are one kind. -/
def isEq : Value → Value → Bool
  | .list m _, .list n _ => m == n
  | .primitive m _, .primitive n _ => m == n
  | .closure m _ _ _, .closure n _ _ _ => m == n
  | .number x, .number y => Number.holds .equal x y
  | .bool a, .bool b => a == b
  | .symbol a, .symbol b => a == b
  | .unspecified, .unspecified => true
  | .tuple ms xs, .tuple ns ys => sameMarked ms xs ns ys
  | .text a, .text b => a == b
  | .nothing, .nothing => true
  | _, _ => false

mutual

/-- Lists are equal if their items are, other values if `isEq` holds of them.  There is no answer if
lists are nested beyond the depth. -/
def isEqual? (depth : Nat) : Value → Value → Option Bool
  | .list _ xs, .list _ ys =>
    match depth with
    | 0 => none
    | depth + 1 => if xs.length = ys.length then allEqual? depth xs ys else some false
  | a, b => some (isEq a b)

def allEqual? (depth : Nat) : List Value → List Value → Option Bool
  | x :: xs, y :: ys =>
    match isEqual? depth x y with
    | some true => allEqual? depth xs ys
    | answer => answer
  | _, _ => some true

end

end SmallLisp.Value
