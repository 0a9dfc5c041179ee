/-!
Sets of code points, given as ascending lists of closed ranges.
-/

namespace Lookahead

abbrev CodeRanges := List (Nat × Nat)

-- Stops at the first range that lies above `code`.
def CodeRanges.contains : CodeRanges → Nat → Bool
  | [], _ => false
  | (low, high) :: rest, code =>
    if code < low then false
    else if code ≤ high then true
    else CodeRanges.contains rest code

end Lookahead
