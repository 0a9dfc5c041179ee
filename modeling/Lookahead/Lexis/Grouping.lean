import Lookahead.Sorting

/-!
Groups of numbered states, which rounds divide further and further. States that have just left a
group do not yet tell what is left of it from the others that left.
-/

namespace Lookahead

-- The groups have numbers below a bound. For every state, there is the number of its group before
-- the last round, and the present one.
structure Grouping where
  bound : Nat
  before : Array Nat
  now : Array Nat
deriving DecidableEq, Repr

namespace Grouping

-- One group of the states that accept nothing, and behind it one for every rule.
def byRules (accepted : Array (Option Nat)) : Grouping :=
  let groups := accepted.map fun rule => rule.elim 0 (· + 1)
  { bound := groups.foldl max 0 + 1, before := groups, now := groups }

def groupOf (g : Grouping) (state : Nat) : Nat := g.now.getD state 0

def groupBefore (g : Grouping) (state : Nat) : Nat := g.before.getD state 0

-- The group of a state as another one sees it. A viewer that left its group in the last round sees
-- all that belonged to that group as one.
def seen (g : Grouping) (viewer state : Nat) : Nat :=
  let old := g.groupBefore viewer
  if g.groupOf viewer ≠ old ∧ g.groupBefore state = old then old else g.groupOf state

def members (g : Grouping) : Array (List Nat) :=
  (List.range g.now.size).foldr
    (fun state table => table.modify (g.groupOf state) (state :: ·))
    (Array.replicate g.bound [])

-- The parts of a group in which all states have the same key, in the order of keys.
def partsBy (key : Nat → List Nat) (group : List Nat) : List (List Nat) :=
  let keyed := sortBy (fun x y => !y.1.lex x.1) (group.map fun state => (key state, state))
  (keyed.splitBy fun x y => x.1 == y.1).map fun part => part.map Prod.snd

def longest (parts : List (List Nat)) : List Nat :=
  parts.foldl (fun best part => if best.length ≤ part.length then part else best) []

-- Divides every group by a key of its states. The largest part keeps the number of the group, and
-- of equally large ones the one with the highest key. The others get new numbers.
def divide (g : Grouping) (key : Nat → List Nat) : Grouping :=
  let leaving := g.members.toList.flatMap fun group =>
    let parts := partsBy key group
    parts.erase (longest parts)
  { bound := g.bound + leaving.length
    before := g.now
    now := (leaving.zipIdx g.bound).foldl
      (fun table (part, number) =>
        part.foldl (fun table state => table.setIfInBounds state number) table)
      g.now }

end Grouping

end Lookahead
