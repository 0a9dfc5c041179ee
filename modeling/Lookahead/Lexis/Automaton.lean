import Lookahead.Lexis.Grouping
import Lookahead.Lexis.Positions

/-!
Deterministic automata for lists of regular expressions. A state stands for the positions of
which one has to be next; states are numbered in the order of these sets. Afterwards, states that
seem to behave alike are merged. They start out in groups by the rules that they accept, and rounds
divide the groups by where their states lead.
-/

namespace Lookahead

-- Bytes of one class are not told apart. There is a row of next states for every state, with an
-- entry for every class; it is absent where a match cannot go on. A state may accept a rule.
structure Automaton where
  start : Nat
  classes : Array Nat
  next : Array (Array (Option Nat))
  accepted : Array (Option Nat)
deriving DecidableEq, Repr

namespace Automaton

-- The known sets of positions, and those that can be reached from pending ones. It takes one
-- step for every set.
def explore (p : Positions) (cuts : List Nat) :
    (fuel : Nat) → (pending known : List IndexSet) → List IndexSet
  | 0, _, known => known
  | _, [], known => known
  | fuel + 1, s :: pending, known =>
    let reached := (cuts.map (p.successors s)).eraseDups
    let fresh := reached.filter fun t => t != .empty && !known.contains t
    explore p cuts fuel (fresh ++ pending) (fresh ++ known)

-- The automaton that has a state for every set of positions, not yet merged.
def ofPositions (first : IndexSet) (p : Positions) : Automaton :=
  let cuts := p.cuts.members
  let sets := explore p cuts (Nat.pow 2 p.marks.size) [first] [first]
  let states := sortBy IndexSet.precedes sets
  let row (s : IndexSet) : Array (Option Nat) :=
    (cuts.map fun b => states.idxOf? (p.successors s b)).toArray
  { start := states.idxOf first
    classes := ((List.range 256).map fun b => cuts.countP (· ≤ b) - 1).toArray
    next := (states.map row).toArray
    accepted := (states.map p.ended?).toArray }

def step (a : Automaton) (state : Nat) (b : UInt8) : Option Nat := do
  let row ← a.next[state]?
  let byteClass ← a.classes[b.toNat]?
  (row[byteClass]?).join

def accepted? (a : Automaton) (state : Nat) : Option Nat := (a.accepted[state]?).join

-- Where the classes of bytes lead from a state: to groups as the state sees them, counted from one,
-- or to zero if a match cannot go on.
def moves (a : Automaton) (g : Grouping) (state : Nat) : List Nat :=
  (a.next.getD state #[]).toList.map fun
    | some t => g.seen state t + 1
    | none => 0

-- Goes on with rounds until one of them divides nothing. All others make more groups, and there
-- cannot be more of them than states.
def settle (a : Automaton) : (fuel : Nat) → Grouping → Grouping
  | 0, g => g
  | fuel + 1, g =>
    let divided := g.divide (a.moves g)
    if divided.bound = g.bound then g else settle a fuel divided

-- Goes on from the first state of a group wherever the group is entered.
def merge (a : Automaton) : Automaton :=
  let g := a.settle a.next.size (.byRules a.accepted)
  let leaders := g.members.map fun group => group.headD 0
  let leader (state : Nat) : Nat := leaders.getD (g.groupOf state) state
  { a with
    start := leader a.start
    next := a.next.map fun row => row.map fun t => t.map leader }

def ofRegexes (rs : List Regex) : Automaton :=
  let (first, p) := Positions.ofRegexes rs
  (ofPositions first p).merge

end Automaton

end Lookahead
