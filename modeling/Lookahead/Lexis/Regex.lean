import Lookahead.Text

/-!
Regular expressions over bytes. What they match is told by partial derivatives: a set of
expressions stands for all the ways in which a match may go on.
-/

namespace Lookahead

structure ByteClass where
  ranges : List (UInt8 × UInt8)
deriving DecidableEq, Repr

namespace ByteClass

def single (b : UInt8) : ByteClass := ⟨[(b, b)]⟩

def any : ByteClass := ⟨[(0x00, 0xFF)]⟩

def contains (c : ByteClass) (b : UInt8) : Bool :=
  c.ranges.any fun r => r.1 ≤ b && b ≤ r.2

def isEmpty (c : ByteClass) : Bool := c.ranges.isEmpty

-- The gaps between ranges that come one behind the other, from the byte `low` on.
def gapsFrom (low : Nat) : List (UInt8 × UInt8) → List (UInt8 × UInt8)
  | [] => if low ≤ 0xFF then [(UInt8.ofNat low, 0xFF)] else []
  | (first, last) :: rest =>
    let behind := gapsFrom (last.toNat + 1) rest
    if low < first.toNat then (UInt8.ofNat low, first - 1) :: behind else behind

-- The class of what lies before, between and behind the ranges of a class in ascending order.
def complement (c : ByteClass) : ByteClass := ⟨gapsFrom 0 c.ranges⟩

end ByteClass

inductive Regex where
  | epsilon
  | bytes (c : ByteClass)
  | cat (r s : Regex)
  | alt (r s : Regex)
  | star (r : Regex)
  | plus (r : Regex)
  | optional (r : Regex)
deriving DecidableEq, Repr

namespace Regex

def nullable : Regex → Bool
  | epsilon => true
  | bytes _ => false
  | cat r s => r.nullable && s.nullable
  | alt r s => r.nullable || s.nullable
  | star _ => true
  | plus r => r.nullable
  | optional _ => true

-- A concatenation, without an empty text in front.
def seq (r s : Regex) : Regex := if r = epsilon then s else cat r s

-- Any number of matches. Repetitions below are absorbed.
def zeroOrMore : Regex → Regex
  | star r => star r
  | plus r => star r
  | optional r => star r
  | r => star r

-- At least one match. Repetitions below are absorbed.
def oneOrMore : Regex → Regex
  | star r => star r
  | plus r => plus r
  | optional r => star r
  | r => plus r

-- At most one match. Repetitions below are absorbed.
def zeroOrOne : Regex → Regex
  | star r => star r
  | plus r => star r
  | optional r => optional r
  | r => optional r

-- The ways in which a match may go on after the byte `b`.
def derivatives (b : UInt8) : Regex → List Regex
  | epsilon => []
  | bytes c => if c.contains b then [epsilon] else []
  | cat r s =>
    (r.derivatives b).map (fun d => seq d s) ++ if r.nullable then s.derivatives b else []
  | alt r s => r.derivatives b ++ s.derivatives b
  | star r => (r.derivatives b).map fun d => seq d (star r)
  | plus r => (r.derivatives b).map fun d => seq d (star r)
  | optional r => r.derivatives b

def derivativesAll (b : UInt8) (rs : List Regex) : List Regex :=
  (rs.flatMap (derivatives b)).eraseDups

def isMatch (r : Regex) (t : Text) : Bool :=
  (t.foldl (fun rs b => derivativesAll b rs) [r]).any nullable

end Regex

end Lookahead
