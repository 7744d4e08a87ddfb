import SmallLisp.Number.Parts

/-!
The Euclidean norm of floats.

The numbers are scaled to magnitudes below one.  Each square is the sum of three products without
rounding, from the halves of its root (`split`); they are added to a sum that starts at one, so that
it exceeds every term, and what the additions lose is kept in three corrections.  One step of
Newton's iteration improves the root.
-/

namespace SmallLisp.Norm

/-- Two floats of half the width whose sum is `x`. -/
def split (x : Float) : Float × Float :=
  let t := x * 134217729.0
  let hi := t - (t - x)
  (hi, x - hi)

/-- A sum and what its additions lost, by the kind of term. -/
structure Accumulator where
  sum : Float
  leading : Float
  mixed : Float
  trailing : Float

namespace Accumulator

def start : Accumulator := ⟨1.0, 0.0, 0.0, 0.0⟩

/-- The new sum and what was lost, for a term that is smaller than the sum. -/
def plus (sum x : Float) : Float × Float :=
  let next := sum + x
  (next, (sum - next) + x)

/-- Add the square of `x`.  The square of the lower half is too small to change the sum. -/
def addSquare (c : Accumulator) (x : Float) : Accumulator :=
  let (hi, lo) := split x
  let (sum, lost) := plus c.sum (hi * hi)
  let (sum, lost') := plus sum (2.0 * hi * lo)
  ⟨sum, c.leading + lost, c.mixed + lost', c.trailing + lo * lo⟩

/-- Subtract the square of `x`. -/
def subSquare (c : Accumulator) (x : Float) : Accumulator :=
  let (hi, lo) := split x
  let (sum, lost) := plus c.sum (-hi * hi)
  let (sum, lost') := plus sum (-2.0 * hi * lo)
  let (sum, lost'') := plus sum (-lo * lo)
  ⟨sum, c.leading + lost, c.mixed + lost', c.trailing + lost''⟩

def total (c : Accumulator) : Float := c.sum - 1.0 + (c.leading + c.mixed + c.trailing)

end Accumulator

/-- The norm of numbers, scaled by a power of two. -/
def scaled (scale : Float) (xs : List Float) : Float :=
  let c := xs.foldl (fun c x => c.addSquare (x * scale)) Accumulator.start
  let root := c.total.sqrt
  let rest := (c.subSquare root).total
  (root + rest / (2.0 * root)) / scale

/-- The norm of numbers so small that they are divided by the greatest of them instead. -/
def tiny (greatest : Float) (xs : List Float) : Float :=
  let (sum, lost) := xs.foldl (fun ((sum, lost) : Float × Float) x =>
    let x := x / greatest
    let (next, rest) := Accumulator.plus sum (x * x)
    (next, lost + rest)) (1.0, 0.0)
  greatest * (sum - 1.0 + lost).sqrt

/-- The norm; an infinity outweighs what is not a number. -/
def norm (numbers : List Float) : Float :=
  let xs := numbers.map Float.abs
  let greatest := xs.foldl (fun m x => if m < x then x else m) 0.0
  if greatest.isInf then greatest
  else if xs.any Float.isNaN then 0.0 / 0.0
  else if greatest == 0.0 || xs.length ≤ 1 then greatest
  else
    let exponent := (Binary.splitExponent (.float greatest)).2
    if -1023 ≤ exponent then scaled (Binary.nearestScaled false 1 (-exponent)) xs
    else tiny greatest xs

end SmallLisp.Norm
