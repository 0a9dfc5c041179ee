import Lookahead.Numeral.Separator

/-!
Integer numerals in base 2, 8, 10 or 16. The base is told by a mark (`0b`, `0o`, `0x`);
a leading zero alone means base 8.
-/

namespace Lookahead

namespace Numeral

-- The base of a numeral without sign, and its digits. A mark needs at least one byte behind it.
def splitBase : Text → Nat × Text
  | b :: mark :: c :: rest =>
    if b ≠ 0x30 then (10, b :: mark :: c :: rest)
    else if lowerByte mark = 0x62 then (2, c :: rest)
    else if lowerByte mark = 0x6F then (8, c :: rest)
    else if lowerByte mark = 0x78 then (16, c :: rest)
    else (8, mark :: c :: rest)
  | b :: rest => if b = 0x30 then (8, rest) else (10, b :: rest)
  | [] => (10, [])

-- Reads digits and underscores. A value that does not fit 64 bits is noticed before later
-- bytes are looked at.
def readDigits (base : Nat) : (value : Nat) → Text → Except Fault Nat
  | value, [] => .ok value
  | value, b :: rest =>
    if b = underscore then readDigits base value rest
    else
      match digitValue b with
      | none => .error .malformed
      | some d =>
        if base ≤ d then .error .malformed
        else if Nat.pow 2 64 ≤ value * base + d then .error .outOfRange
        else readDigits base (value * base + d) rest

def readMagnitude (t : Text) : Except Fault Nat :=
  if t.isEmpty then .error .malformed
  else
    let (base, digits) := splitBase t
    match readDigits base 0 digits with
    | .error fault => .error fault
    | .ok value =>
      if t.contains underscore && !isWellSeparated t then .error .malformed else .ok value

def readInteger (t : Text) : Except Fault Int64 :=
  let (negative, magnitude) := splitSign t
  match readMagnitude magnitude with
  | .error fault => .error fault
  | .ok value =>
    if negative then
      if Nat.pow 2 63 < value then .error .outOfRange else .ok (Int64.ofInt (-value))
    else if Nat.pow 2 63 ≤ value then .error .outOfRange
    else .ok (Int64.ofInt value)

end Numeral

end Lookahead
