/-!
# Tables of code-point ranges

A character property given as a sorted array of disjoint inclusive ranges, searched by halving.
-/

namespace LlvmAsm.Text

/-- Sorted, disjoint, inclusive ranges of code points. -/
structure RangeTable where
  ranges : Array (Nat × Nat)

namespace RangeTable

/-- Whether `n` lies in one of the ranges with index in `[lo, hi)`. -/
def containsIn (t : RangeTable) (n lo hi : Nat) : Bool :=
  if _h : lo < hi then
    let mid := (lo + hi) / 2
    match t.ranges[mid]? with
    | some (a, b) =>
      if n < a then t.containsIn n lo mid
      else if b < n then t.containsIn n (mid + 1) hi
      else true
    | none => false
  else false
termination_by hi - lo

/-- Whether `n` lies in one of the ranges. -/
def contains (t : RangeTable) (n : Nat) : Bool := t.containsIn n 0 t.ranges.size

end RangeTable

end LlvmAsm.Text
