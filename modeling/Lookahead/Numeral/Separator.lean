import Lookahead.Text

/-!
Underscores in numerals. An underscore has to stand between two digits; the mark of a
base, as in `0x`, counts as a digit.
-/

namespace Lookahead

namespace Numeral

def underscore : UInt8 := 0x5F

inductive Seen where
  | digit
  | separator
  | other
deriving DecidableEq, Repr

def separatedFrom (hexadecimal : Bool) : Seen → Text → Bool
  | seen, [] => seen ≠ .separator
  | seen, b :: rest =>
    if isDecimalByte b || (hexadecimal && isHexByte b) then separatedFrom hexadecimal .digit rest
    else if b = underscore then seen = .digit && separatedFrom hexadecimal .separator rest
    else seen ≠ .separator && separatedFrom hexadecimal .other rest

-- Every underscore of a numeral without sign stands between digits.
def isWellSeparated (t : Text) : Bool :=
  match t with
  | b :: mark :: rest =>
    if b = 0x30 && lowerByte mark = 0x78 then separatedFrom true .digit rest
    else if b = 0x30 && (lowerByte mark = 0x6F || lowerByte mark = 0x62) then
      separatedFrom false .digit rest
    else separatedFrom false .other t
  | _ => separatedFrom false .other t

-- Splits off a sign. The flag is set for a minus sign.
def splitSign : Text → Bool × Text
  | [] => (false, [])
  | b :: rest =>
    if b = 0x2B then (false, rest)
    else if b = 0x2D then (true, rest)
    else (false, b :: rest)

inductive Fault where
  | malformed
  | outOfRange
deriving DecidableEq, Repr

def Fault.message : Fault → Text
  | malformed => text "invalid syntax"
  | outOfRange => text "value out of range"

end Numeral

end Lookahead
