/-!
Sets of characters given by tables of ranges in ascending order, searched by halving.
-/

namespace BilingualLogic.Unicode

/-- Looks for `n` in the ranges from index `low` up to, and without, index `high`. -/
def search (ranges : Array (Nat × Nat)) (n : Nat) : Nat → Nat → Nat → Bool
  | 0, _, _ => false
  | fuel + 1, low, high =>
    if low < high then
      let mid := (low + high) / 2
      match ranges[mid]? with
      | none => false
      | some (first, last) =>
        if n < first then search ranges n fuel low mid
        else if last < n then search ranges n fuel (mid + 1) high
        else true
    else false

def inRanges (ranges : Array (Nat × Nat)) (c : Char) : Bool :=
  search ranges c.toNat (ranges.size + 1) 0 ranges.size

end BilingualLogic.Unicode
