/-!
Sets of code points as sorted boundary sequences. A point belongs to the set when an odd number
of boundaries lie at or below it.
-/

set_option autoImplicit false

namespace Nodecraft.Text

/-- The ascending points at which membership changes, starting outside the set. -/
structure CodePointSet where
  boundaries : Array Nat
  deriving Inhabited

namespace CodePointSet

/-- The number of boundaries at or below `n` among those with index in `[lo, hi)`, plus `lo`. -/
def rank (bs : Array Nat) (n lo hi : Nat) : Nat :=
  if h : lo < hi then
    let mid := lo + (hi - lo) / 2
    if bs.getD mid 0 ≤ n then rank bs n (mid + 1) hi else rank bs n lo mid
  else lo
termination_by hi - lo

def containsPoint (s : CodePointSet) (n : Nat) : Bool :=
  rank s.boundaries n 0 s.boundaries.size % 2 == 1

def contains (s : CodePointSet) (c : Char) : Bool := s.containsPoint c.toNat

end CodePointSet

end Nodecraft.Text
