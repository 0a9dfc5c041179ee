import Lookahead.Numeral.Binary64
import Lookahead.Numeral.Separator

/-!
Floating-point numerals: decimal ones, hexadecimal ones with a binary exponent, and the
names of infinity and not-a-number.
-/

namespace Lookahead

namespace Numeral

-- The digits of a numeral, up to an exponent or whatever else follows.
structure Mantissa where
  value : Nat
  sawDigit : Bool
  sawPoint : Bool
  fractionDigits : Nat
deriving Repr

def Mantissa.empty : Mantissa := ⟨0, false, false, 0⟩

def Mantissa.push (base digit : Nat) (m : Mantissa) : Mantissa :=
  { value := m.value * base + digit
    sawDigit := true
    sawPoint := m.sawPoint
    fractionDigits := if m.sawPoint then m.fractionDigits + 1 else m.fractionDigits }

def readMantissa (base : Nat) : Mantissa → Text → Mantissa × Text
  | m, [] => (m, [])
  | m, b :: rest =>
    if b = underscore then readMantissa base m rest
    else if b = 0x2E && !m.sawPoint then readMantissa base { m with sawPoint := true } rest
    else
      match digitValue b with
      | some d => if d < base then readMantissa base (m.push base d) rest else (m, b :: rest)
      | none => (m, b :: rest)

-- The digits of an exponent. Digits behind the fifth one do not count.
def readExponentDigits : (value : Nat) → Text → Nat × Text
  | value, [] => (value, [])
  | value, b :: rest =>
    if b = underscore then readExponentDigits value rest
    else if isDecimalByte b then
      readExponentDigits (if value < 10000 then value * 10 + (b.toNat - 0x30) else value) rest
    else (value, b :: rest)

-- An exponent behind its letter, which has to start with a digit and to end the numeral.
def readExponent (t : Text) : Option Int :=
  let (negative, digits) := splitSign t
  match digits with
  | [] => none
  | b :: _ =>
    if isDecimalByte b then
      let (value, rest) := readExponentDigits 0 digits
      if rest.isEmpty then some (if negative then -(value : Int) else value) else none
    else none

-- The number nearest to `value * base ^ exponent`. Exponents far outside the range of
-- numbers are settled before powers are computed.
def scaled (base value : Nat) (exponent : Int) : Option UInt64 :=
  let size : Int := exponent + (Nat.toDigits base value).length
  if value = 0 || size < -1200 then some 0
  else if 1200 < size then none
  else
    match exponent with
    | .ofNat k => Binary64.ofQuotient (value * Nat.pow base k) 1
    | .negSucc k => Binary64.ofQuotient value (Nat.pow base (k + 1))

def finish (value : Option UInt64) : Except Fault UInt64 :=
  match value with
  | some bits => .ok bits
  | none => .error .outOfRange

def readDecimal (t : Text) : Except Fault UInt64 :=
  let (m, rest) := readMantissa 10 .empty t
  if !m.sawDigit then .error .malformed
  else
    match rest with
    | [] => finish (scaled 10 m.value (-m.fractionDigits))
    | b :: rest =>
      if lowerByte b ≠ 0x65 then .error .malformed
      else
        match readExponent rest with
        | none => .error .malformed
        | some e => finish (scaled 10 m.value (e - m.fractionDigits))

-- A hexadecimal numeral behind its mark. The exponent may not be left out.
def readHexadecimal (t : Text) : Except Fault UInt64 :=
  let (m, rest) := readMantissa 16 .empty t
  match m.sawDigit, rest with
  | true, b :: rest =>
    if lowerByte b ≠ 0x70 then .error .malformed
    else
      match readExponent rest with
      | none => .error .malformed
      | some e => finish (scaled 2 m.value (e - 4 * m.fractionDigits))
  | _, _ => .error .malformed

def isInfinityName (t : Text) : Bool :=
  let lower := t.map lowerByte
  lower = text "inf" || lower = text "infinity"

def isNaNName (t : Text) : Bool :=
  t.map lowerByte = text "nan"

def readReal (t : Text) : Except Fault UInt64 :=
  let (negative, unsigned) := splitSign t
  if isInfinityName unsigned then .ok (Binary64.withSign negative Binary64.infinity)
  else if isNaNName t then .ok Binary64.notANumber
  else if unsigned.contains underscore && !isWellSeparated unsigned then .error .malformed
  else
    let result :=
      match unsigned with
      | b :: mark :: c :: rest =>
        if b = 0x30 && lowerByte mark = 0x78 then readHexadecimal (c :: rest)
        else readDecimal unsigned
      | _ => readDecimal unsigned
    result.map (Binary64.withSign negative)

end Numeral

end Lookahead
