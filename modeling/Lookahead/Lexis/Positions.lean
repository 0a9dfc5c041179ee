import Lookahead.IndexSet
import Lookahead.Lexis.Regex

/-!
Positions in a list of regular expressions. Every range of bytes in an expression has a position,
and so has the end of every expression; they are numbered from left to right. An expression is
then known by the positions at which a match may begin, and by those that may follow each other.
-/

namespace Lookahead

-- What stands at a position: a range of bytes, or the end of an expression.
inductive Mark where
  | bytes (low high : Nat)
  | finish (rule : Nat)
deriving DecidableEq, Repr

namespace Mark

def reads (b : Nat) : Mark → Bool
  | bytes low high => low ≤ b && b ≤ high
  | finish _ => false

def rule? : Mark → Option Nat
  | bytes _ _ => none
  | finish rule => some rule

-- The bytes at which it changes whether a mark reads them.
def bounds : Mark → List Nat
  | bytes low high => [low, high + 1]
  | finish _ => []

end Mark

structure Ends where
  first : IndexSet
  last : IndexSet

structure Positions where
  marks : Array Mark
  followers : Array IndexSet

namespace Positions

def empty : Positions := ⟨#[], #[]⟩

def add (p : Positions) (m : Mark) : Positions :=
  ⟨p.marks.push m, p.followers.push .empty⟩

def link (p : Positions) (before next : IndexSet) : Positions :=
  let followers :=
    before.members.foldl (fun fs i => fs.modify i fun s => s.union next) p.followers
  { p with followers := followers }

def place : Regex → Positions → Ends × Positions
  | .epsilon, p => (⟨.empty, .empty⟩, p)
  | .bytes c, p =>
    let here := IndexSet.ofList (List.range' p.marks.size c.ranges.length)
    (⟨here, here⟩, c.ranges.foldl (fun p r => p.add (.bytes r.1.toNat r.2.toNat)) p)
  | .cat r s, p =>
    let (left, p) := place r p
    let (right, p) := place s p
    let first := if r.nullable then left.first.union right.first else left.first
    let last := if s.nullable then left.last.union right.last else right.last
    (⟨first, last⟩, p.link left.last right.first)
  | .alt r s, p =>
    let (left, p) := place r p
    let (right, p) := place s p
    (⟨left.first.union right.first, left.last.union right.last⟩, p)
  | .star r, p =>
    let (ends, p) := place r p
    (ends, p.link ends.last ends.first)
  | .plus r, p =>
    let (ends, p) := place r p
    (ends, p.link ends.last ends.first)
  | .optional r, p => place r p

-- Adds the positions of an expression and its end, and tells where a match may begin.
def placeRule (rule : Nat) (r : Regex) (p : Positions) : IndexSet × Positions :=
  let (ends, p) := place r p
  let stop := IndexSet.empty.insert p.marks.size
  let p := (p.add (.finish rule)).link ends.last stop
  (if r.nullable then ends.first.union stop else ends.first, p)

-- The positions of some expressions, and those at which a match may begin.
def ofRegexes (rs : List Regex) : IndexSet × Positions :=
  rs.zipIdx.foldl
    (fun (start, p) (r, i) =>
      let (first, p) := placeRule i r p
      (start.union first, p))
    (.empty, .empty)

-- The positions after a byte, if one of some positions has to be next.
def successors (p : Positions) (s : IndexSet) (b : Nat) : IndexSet :=
  s.members.foldl
    (fun t i =>
      match p.marks[i]?, p.followers[i]? with
      | some m, some next => if m.reads b then t.union next else t
      | _, _ => t)
    .empty

-- The first rule that may end where one of some positions has to be next.
def ended? (p : Positions) (s : IndexSet) : Option Nat :=
  (s.members.filterMap fun i => p.marks[i]?.bind Mark.rule?).min?

-- Zero and the bytes that are told apart from the byte below them.
def cuts (p : Positions) : IndexSet :=
  IndexSet.ofList (0 :: p.marks.toList.flatMap Mark.bounds)

end Positions

end Lookahead
