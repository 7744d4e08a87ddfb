import SmallLisp.Number.Basic

/-!
Sums of many floats with a single rounding.

The sum keeps floats that do not overlap and together hold the exact value (`Summation.partials`);
they are rounded once at the end.
-/

namespace SmallLisp

structure Summation where
  /-- Floats in increasing order of magnitude, without overlap, whose exact sum is the sum so far. -/
  partials : List Float
  /-- Sum of the terms that are not finite. -/
  special : Double
  /-- Sum of the infinite terms. -/
  infinite : Float

namespace Summation

def empty : Summation := ⟨[], .float 0.0, 0.0⟩

/-- The rounded sum of two floats and what the rounding left over. -/
def twoSum (x y : Float) : Float × Float :=
  let (x, y) := if x.abs < y.abs then (y, x) else (x, y)
  let hi := x + y
  (hi, y - (hi - x))

/-- Sweep a float through partial sums: the remainders that are not zero, and the rounded total. -/
def sweep (x : Float) : List Float → List Float × Float
  | [] => ([], x)
  | y :: rest =>
    let (hi, lo) := twoSum x y
    let (kept, total) := sweep hi rest
    (if lo == 0.0 then kept else lo :: kept, total)

def add (s : Summation) (x : Double) : Except NoResult Summation :=
  let v := x.toFloat
  let (kept, total) := sweep v s.partials
  if total == 0.0 then .ok { s with partials := kept }
  else if total.isFinite then .ok { s with partials := kept ++ [total] }
  else if v.isFinite then .error .sumOverflow
  else .ok ⟨[], s.special.add x, if v.isInf then s.infinite + v else s.infinite⟩

/-- Round the value of partial sums given in decreasing order, from `hi` on: the first remainder that
is not zero decides, and one more partial sum breaks a tie. -/
def roundFrom (hi : Float) : List Float → Float
  | [] => hi
  | y :: rest =>
    let total := hi + y
    let lo := y - (total - hi)
    if lo == 0.0 then roundFrom total rest
    else
      match rest with
      | [] => total
      | z :: _ =>
        if (lo < 0.0 && z < 0.0) || (0.0 < lo && 0.0 < z) then
          let twice := lo * 2.0
          let next := total + twice
          if twice == next - total then next else total
        else total

def result (s : Summation) : Except NoResult Double :=
  if s.special.isZero then
    match s.partials.reverse with
    | [] => .ok (.float 0.0)
    | hi :: rest => .ok (.float (roundFrom hi rest))
  else if s.infinite.isNaN then .error .oppositeInfinities
  else .ok s.special

end Summation

end SmallLisp
