/-!
Repeating a pass over some data until it does not change anything.
-/

namespace Lookahead

-- The data after the last pass, and the number of passes. The last pass, which changes nothing,
-- counts. No more than `fuel` passes are made.
def fixedPoint {α : Type} [DecidableEq α] (pass : α → α) : (fuel : Nat) → α → α × Nat
  | 0, x => (x, 0)
  | fuel + 1, x =>
    let y := pass x
    if y = x then (x, 1)
    else
      let (z, passes) := fixedPoint pass fuel y
      (z, passes + 1)

end Lookahead
