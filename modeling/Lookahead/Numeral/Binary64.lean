/-!
Rounding to binary floating point with 53 bits of precision. Numbers are given by their
bit patterns, rounding goes to the nearest number and in a tie to the even one.
-/

namespace Lookahead

namespace Binary64

def signBit : UInt64 := 0x8000000000000000
def infinity : UInt64 := 0x7FF0000000000000
def notANumber : UInt64 := 0x7FF8000000000001

-- The integer nearest to `num / den`, of two the even one.
def roundQuotient (num den : Nat) : Nat :=
  let q := num / den
  let r := num % den
  if 2 * r < den then q
  else if den < 2 * r then q + 1
  else if q % 2 = 0 then q else q + 1

-- The quotient `num / den` divided by `2 ^ e`, as a quotient.
def scaleDown (num den : Nat) (e : Int) : Nat × Nat :=
  match e with
  | .ofNat k => (num, den * Nat.pow 2 k)
  | .negSucc k => (num * Nat.pow 2 (k + 1), den)

-- The largest `e` with `2 ^ e ≤ num / den`.
def binaryExponent (num den : Nat) : Int :=
  let guess : Int := (num.log2 : Int) - den.log2
  let (n, d) := scaleDown num den guess
  if d ≤ n then guess else guess - 1

-- The number nearest to the quotient of two numbers, or none if it is too large. The significand
-- is a multiple of `2 ^ e`, where `e` is at least the exponent of the smallest number. A
-- significand rounded up to `2 ^ 53` carries over into the exponent field.
def ofQuotient (num den : Nat) : Option UInt64 :=
  if num = 0 then some 0
  else
    let e : Int := max (binaryExponent num den - 52) (-1074)
    let (n, d) := scaleDown num den e
    let pattern := (e + 1074).toNat * Nat.pow 2 52 + roundQuotient n d
    if infinity.toNat ≤ pattern then none else some (UInt64.ofNat pattern)

def withSign (negative : Bool) (magnitude : UInt64) : UInt64 :=
  if negative then magnitude ||| signBit else magnitude

def isNegative (bits : UInt64) : Bool := bits &&& signBit ≠ 0

def magnitude (bits : UInt64) : UInt64 := bits &&& (signBit - 1)

def isNaN (bits : UInt64) : Bool := infinity < magnitude bits

def isInfinite (bits : UInt64) : Bool := magnitude bits = infinity

-- Significand and exponent of a finite number: its magnitude is `m * 2 ^ q`.
def significand (bits : UInt64) : Nat × Int :=
  let field : Nat := (magnitude bits).toNat / Nat.pow 2 52
  let fraction : Nat := (magnitude bits).toNat % Nat.pow 2 52
  if field = 0 then (fraction, -1074) else (Nat.pow 2 52 + fraction, (field : Int) - 1075)

end Binary64

end Lookahead
