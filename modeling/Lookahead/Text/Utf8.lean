import Lookahead.Text

/-!
Text as a sequence of characters. A byte that does not start a well-formed UTF-8
sequence is a character of its own, with the code point of the replacement character.
-/

namespace Lookahead

structure Character where
  code : Nat
  bytes : Text
  wellFormed : Bool
deriving DecidableEq, Repr, Inhabited

namespace Utf8

def replacement : Nat := 0xFFFD

-- The bytes that may follow a lead byte: their number, and the range of the first one.
def tails (lead : UInt8) : Option (Nat × UInt8 × UInt8) :=
  if 0xC2 ≤ lead && lead ≤ 0xDF then some (1, 0x80, 0xBF)
  else if lead = 0xE0 then some (2, 0xA0, 0xBF)
  else if lead = 0xED then some (2, 0x80, 0x9F)
  else if 0xE1 ≤ lead && lead ≤ 0xEF then some (2, 0x80, 0xBF)
  else if lead = 0xF0 then some (3, 0x90, 0xBF)
  else if 0xF1 ≤ lead && lead ≤ 0xF3 then some (3, 0x80, 0xBF)
  else if lead = 0xF4 then some (3, 0x80, 0x8F)
  else none

def isTail (b : UInt8) : Bool := 0x80 ≤ b && b ≤ 0xBF

-- The payload of a lead byte that is followed by `n` more bytes.
def leadBits (n : Nat) (lead : UInt8) : Nat := lead.toNat % Nat.pow 2 (6 - n)

def malformed (b : UInt8) : Character := ⟨replacement, [b], false⟩

def decode (b : UInt8) (rest : Text) : Character :=
  if b < 0x80 then ⟨b.toNat, [b], true⟩
  else
    match tails b with
    | none => malformed b
    | some (n, low, high) =>
      match rest.take n with
      | [] => malformed b
      | c :: cs =>
        if low ≤ c && c ≤ high && cs.all isTail && cs.length + 1 = n then
          let code := (c :: cs).foldl (fun code t => code * 64 + t.toNat % 64) (leadBits n b)
          ⟨code, b :: c :: cs, true⟩
        else malformed b

-- The characters of a text, skipping the first `skip` bytes.
def charactersFrom : (skip : Nat) → Text → List Character
  | _, [] => []
  | 0, b :: rest =>
    let c := decode b rest
    c :: charactersFrom (c.bytes.length - 1) rest
  | skip + 1, _ :: rest => charactersFrom skip rest

def characters (t : Text) : List Character := charactersFrom 0 t

def isValid (t : Text) : Bool := (characters t).all (·.wellFormed)

def isScalar (code : Nat) : Bool := code < 0xD800 || (0xDFFF < code && code ≤ 0x10FFFF)

-- The bytes of a code point. What is no scalar value is written as the replacement character.
def encode (code : Nat) : Text :=
  let tail (shift : Nat) : UInt8 := UInt8.ofNat (0x80 + code / Nat.pow 2 shift % 64)
  if code < 0x80 then [UInt8.ofNat code]
  else if code < 0x800 then [UInt8.ofNat (0xC0 + code / 64), tail 0]
  else if !isScalar code then [0xEF, 0xBF, 0xBD]
  else if code < 0x10000 then [UInt8.ofNat (0xE0 + code / 4096), tail 6, tail 0]
  else [UInt8.ofNat (0xF0 + code / 262144), tail 12, tail 6, tail 0]

def repair (t : Text) : Text := (characters t).flatMap fun c => encode c.code

end Utf8

end Lookahead
