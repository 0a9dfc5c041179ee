/-!
Text is a sequence of bytes. Names, lexemes, messages and program output are all
texts, and none of them has to be valid UTF-8.
-/

namespace Lookahead

abbrev Text := List UInt8

def text (s : String) : Text := s.toUTF8.data.toList

namespace Text

-- The digits of `n` in base `base`, most significant first, with letters in lower case.
def digits (base n : Nat) : Text :=
  (Nat.toDigits base n).map fun c => UInt8.ofNat c.toNat

def ofNat (n : Nat) : Text := digits 10 n

def ofInt : Int → Text
  | .ofNat n => ofNat n
  | .negSucc n => text "-" ++ ofNat (n + 1)

-- Fills up to `width` bytes on the left.
def padLeft (width : Nat) (fill : UInt8) (t : Text) : Text :=
  List.replicate (width - t.length) fill ++ t

-- Hexadecimal digits, at least `width` of them.
def hex (width n : Nat) : Text := padLeft width 0x30 (digits 16 n)

-- A decimal number in a field of at least `width` bytes, aligned to the right.
def numberField (width n : Nat) : Text := padLeft width 0x20 (ofNat n)

def join (separator : Text) (parts : List Text) : Text :=
  List.intercalate separator parts

-- A list in brackets, its items separated by one blank.
def bracketed (items : List Text) : Text :=
  text "[" ++ join (text " ") items ++ text "]"

def startsWith (start t : Text) : Bool := start.isPrefixOf t

-- Splits at every occurrence of `mark`. There is always at least one part.
def splitOn (mark : UInt8) : Text → List Text
  | [] => [[]]
  | b :: rest =>
    match splitOn mark rest with
    | [] => [[b]]
    | part :: parts => if b = mark then [] :: part :: parts else (b :: part) :: parts

end Text

-- ASCII letters in lower case. Other bytes may change, but never into a letter.
def lowerByte (b : UInt8) : UInt8 := b ||| 0x20

def isDecimalByte (b : UInt8) : Bool := 0x30 ≤ b && b ≤ 0x39

def isHexByte (b : UInt8) : Bool :=
  isDecimalByte b || (0x61 ≤ lowerByte b && lowerByte b ≤ 0x66)

-- The value of a digit up to `z`, or none for other bytes.
def digitValue (b : UInt8) : Option Nat :=
  if isDecimalByte b then some (b.toNat - 0x30)
  else if 0x61 ≤ lowerByte b && lowerByte b ≤ 0x7a then some ((lowerByte b).toNat - 0x61 + 10)
  else none

end Lookahead
