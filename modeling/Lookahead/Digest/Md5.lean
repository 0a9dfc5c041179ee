import Lookahead.Text

/-!
The MD5 digest of a text, a number of 128 bits.
-/

namespace Lookahead

namespace Md5

structure State where
  a : UInt32
  b : UInt32
  c : UInt32
  d : UInt32
deriving DecidableEq, Repr

def State.start : State := ⟨0x67452301, 0xEFCDAB89, 0x98BADCFE, 0x10325476⟩

def State.add (s t : State) : State := ⟨s.a + t.a, s.b + t.b, s.c + t.c, s.d + t.d⟩

def constants : List UInt32 :=
  [0xD76AA478, 0xE8C7B756, 0x242070DB, 0xC1BDCEEE, 0xF57C0FAF, 0x4787C62A, 0xA8304613, 0xFD469501,
   0x698098D8, 0x8B44F7AF, 0xFFFF5BB1, 0x895CD7BE, 0x6B901122, 0xFD987193, 0xA679438E, 0x49B40821,
   0xF61E2562, 0xC040B340, 0x265E5A51, 0xE9B6C7AA, 0xD62F105D, 0x02441453, 0xD8A1E681, 0xE7D3FBC8,
   0x21E1CDE6, 0xC33707D6, 0xF4D50D87, 0x455A14ED, 0xA9E3E905, 0xFCEFA3F8, 0x676F02D9, 0x8D2A4C8A,
   0xFFFA3942, 0x8771F681, 0x6D9D6122, 0xFDE5380C, 0xA4BEEA44, 0x4BDECFA9, 0xF6BB4B60, 0xBEBFBC70,
   0x289B7EC6, 0xEAA127FA, 0xD4EF3085, 0x04881D05, 0xD9D4D039, 0xE6DB99E5, 0x1FA27CF8, 0xC4AC5665,
   0xF4292244, 0x432AFF97, 0xAB9423A7, 0xFC93A039, 0x655B59C3, 0x8F0CCC92, 0xFFEFF47D, 0x85845DD1,
   0x6FA87E4F, 0xFE2CE6E0, 0xA3014314, 0x4E0811A1, 0xF7537E82, 0xBD3AF235, 0x2AD7D2BB, 0xEB86D391]

-- How far every round rotates; four amounts take turns in each group of sixteen rounds.
def rotations : List UInt32 :=
  [[7, 12, 17, 22], [5, 9, 14, 20], [4, 11, 16, 23], [6, 10, 15, 21]].flatMap fun group =>
    (List.replicate 4 group).flatten

def rotateLeft (x n : UInt32) : UInt32 := (x <<< n) ||| (x >>> (32 - n))

-- The mixing function of round `i`, and the word of the block that it uses.
def mix (i : Nat) (s : State) : UInt32 × Nat :=
  if i < 16 then ((s.b &&& s.c) ||| (~~~s.b &&& s.d), i)
  else if i < 32 then ((s.d &&& s.b) ||| (~~~s.d &&& s.c), (5 * i + 1) % 16)
  else if i < 48 then (s.b ^^^ s.c ^^^ s.d, (3 * i + 5) % 16)
  else (s.c ^^^ (s.b ||| ~~~s.d), (7 * i) % 16)

def round (block : List UInt32) (s : State) (i : Nat) (constant rotation : UInt32) : State :=
  let (f, word) := mix i s
  let sum := f + s.a + constant + block[word]?.getD 0
  ⟨s.d, s.b + rotateLeft sum rotation, s.b, s.c⟩

def absorb (s : State) (block : List UInt32) : State :=
  let rounds := (List.range 64).zip (constants.zip rotations)
  s.add (rounds.foldl (fun t (i, constant, rotation) => round block t i constant rotation) s)

-- `count` bytes of a number, the least significant one first.
def littleEndian (count n : Nat) : Text :=
  (List.range count).map fun i => UInt8.ofNat (n / Nat.pow 256 i % 256)

-- A one bit, zeros up to eight bytes before the end of a block, and the length in bits.
def pad (t : Text) : Text :=
  let zeros := (119 - t.length % 64) % 64
  t ++ [0x80] ++ List.replicate zeros 0 ++ littleEndian 8 (8 * t.length)

-- Cuts a list into pieces of `size` items; `fuel` bounds their number.
def pieces {α : Type} (size : Nat) : (fuel : Nat) → List α → List (List α)
  | 0, _ => []
  | fuel + 1, items =>
    if items.isEmpty then [] else items.take size :: pieces size fuel (items.drop size)

def word (bytes : Text) : UInt32 :=
  UInt32.ofNat (bytes.foldr (fun b n => b.toNat + 256 * n) 0)

def blocks (t : Text) : List (List UInt32) :=
  (pieces 64 t.length t).map fun block => (pieces 4 16 block).map word

def digest (t : Text) : Text :=
  let s := (blocks (pad t)).foldl absorb .start
  [s.a, s.b, s.c, s.d].flatMap fun w => littleEndian 4 w.toNat

def hexDigest (t : Text) : Text := (digest t).flatMap fun b => Text.hex 2 b.toNat

end Md5

end Lookahead
