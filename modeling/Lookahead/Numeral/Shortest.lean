import Lookahead.Numeral.Binary64
import Lookahead.Text

/-!
The text of a floating-point number: the fewest digits that read back as the same number, and of
several such decimals the nearest one. Exponents from -4 to 5 are written positionally.
-/

namespace Lookahead

namespace Shortest

structure Decimal where
  digits : Nat
  exponent : Int
deriving DecidableEq, Repr

-- The quotient `num / den` divided by `10 ^ k`, as a quotient.
def onGrid (num den : Nat) (k : Int) : Nat × Nat :=
  match k with
  | .ofNat k => (num, den * Nat.pow 10 k)
  | .negSucc k => (num * Nat.pow 10 (k + 1), den)

-- The largest `p` with `10 ^ p ≤ num / den`.
def decimalExponent (num den : Nat) : Int :=
  let guess : Int := (((num.log2 : Int) - den.log2) * 30103) / 100000
  let isAtMost (p : Int) : Bool := let (n, d) := onGrid num den p; d ≤ n
  if isAtMost (guess + 1) then guess + 1
  else if isAtMost guess then guess
  else guess - 1

-- The numbers that round to a given one, in units of a quarter of its last binary place. They
-- reach half way to the neighbours, which below a power of two is a quarter.
structure Interval where
  low : Nat
  mid : Nat
  high : Nat
  closed : Bool
  unit : Int
deriving Repr

def Interval.around (m : Nat) (q : Int) : Interval :=
  { low := if m = Nat.pow 2 52 && -1074 < q then 4 * m - 1 else 4 * m - 2
    mid := 4 * m
    high := 4 * m + 2
    closed := m % 2 = 0
    unit := q - 2 }

def Interval.quotient (i : Interval) (n : Nat) : Nat × Nat :=
  match i.unit with
  | .ofNat k => (n * Nat.pow 2 k, 1)
  | .negSucc k => (n, Nat.pow 2 (k + 1))

def Interval.contains (i : Interval) (c : Nat) (k : Int) : Bool :=
  let (ln, ld) := i.quotient i.low
  let (hn, hd) := i.quotient i.high
  let (ln, ld) := onGrid ln ld k
  let (hn, hd) := onGrid hn hd k
  if i.closed then ln ≤ c * ld && c * hd ≤ hn else ln < c * ld && c * hd < hn

-- The point of the grid of step `10 ^ k` next to the middle that lies in the interval.
def Interval.nearest? (i : Interval) (k : Int) : Option Nat :=
  let (n, d) := i.quotient i.mid
  let (n, d) := onGrid n d k
  let below := n / d
  let best := Binary64.roundQuotient n d
  let other := if best = below then below + 1 else below
  if i.contains best k then some best
  else if i.contains other k then some other
  else none

-- The first grid with a hit, starting with `count` digits.
def search (i : Interval) (top : Int) : (more count : Nat) → Decimal
  | 0, count => ⟨0, top + 1 - count⟩
  | more + 1, count =>
    let k := top + 1 - count
    match i.nearest? k with
    | some c => ⟨c, k⟩
    | none => search i top more (count + 1)

-- The shortest decimal for `m * 2 ^ q`. Seventeen digits always suffice.
def decimal (m : Nat) (q : Int) : Decimal :=
  let i := Interval.around m q
  let (n, d) := i.quotient i.mid
  search i (decimalExponent n d) 17 1

def dropZeros : Text → Text
  | [] => []
  | b :: rest => if b = 0x30 then dropZeros rest else b :: rest

-- Digits without zeros at the end, and the place of the decimal point behind the first digit.
def layout (d : Decimal) : Text × Int :=
  let all := Text.ofNat d.digits
  ((dropZeros all.reverse).reverse, d.exponent + all.length)

-- One digit, the others behind a point, and an exponent with a sign and two digits.
def scientific (digits : Text) (exponent : Int) : Text :=
  let fraction := if digits.length ≤ 1 then [] else text "." ++ digits.drop 1
  let sign := if exponent < 0 then text "-" else text "+"
  digits.take 1 ++ fraction ++ text "e" ++ sign ++ Text.padLeft 2 0x30 (Text.ofNat exponent.natAbs)

def positional (digits : Text) (point : Int) : Text :=
  match point with
  | .negSucc k => text "0." ++ List.replicate (k + 1) 0x30 ++ digits
  | .ofNat 0 => text "0." ++ digits
  | .ofNat p =>
    if digits.length ≤ p then digits ++ List.replicate (p - digits.length) 0x30
    else digits.take p ++ text "." ++ digits.drop p

def finite (m : Nat) (q : Int) : Text :=
  if m = 0 then text "0"
  else
    let (digits, point) := layout (decimal m q)
    if point - 1 < -4 || 6 ≤ point - 1 then scientific digits (point - 1)
    else positional digits point

def render (bits : UInt64) : Text :=
  if Binary64.isNaN bits then text "NaN"
  else if Binary64.isInfinite bits then
    if Binary64.isNegative bits then text "-Inf" else text "+Inf"
  else
    let (m, q) := Binary64.significand bits
    (if Binary64.isNegative bits then text "-" else []) ++ finite m q

end Shortest

end Lookahead
