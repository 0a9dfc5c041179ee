import Lookahead.Text.Printable
import Lookahead.Text.Utf8

/-!
Quoted text: how texts appear in messages (`quote`), and how the quoted literals of a
program text are read (`unquote`). There are three kinds of literals: strings in double quotes
and characters in single quotes know escape sequences, raw strings in backquotes do not.
-/

namespace Lookahead

namespace Quoted

def backslash : UInt8 := 0x5C
def singleQuote : UInt8 := 0x27
def doubleQuote : UInt8 := 0x22
def backquote : UInt8 := 0x60
def newline : UInt8 := 0x0A
def carriageReturn : UInt8 := 0x0D

-- The control characters that have an escape letter of their own.
def controlEscapes : List (UInt8 × UInt8) :=
  [(0x61, 0x07), (0x62, 0x08), (0x66, 0x0C), (0x6E, 0x0A), (0x72, 0x0D), (0x74, 0x09), (0x76, 0x0B)]

def escape (quotation : UInt8) (c : Character) : Text :=
  if !c.wellFormed then text "\\x" ++ c.bytes.flatMap fun b => Text.hex 2 b.toNat
  else if c.code = quotation.toNat || c.code = backslash.toNat then backslash :: c.bytes
  else if isPrintable c.code then c.bytes
  else
    match controlEscapes.find? (·.2.toNat = c.code) with
    | some (letter, _) => [backslash, letter]
    | none =>
      if c.code < 0x20 || c.code = 0x7F then text "\\x" ++ Text.hex 2 c.code
      else if c.code < 0x10000 then text "\\u" ++ Text.hex 4 c.code
      else text "\\U" ++ Text.hex 8 c.code

def quote (t : Text) : Text :=
  [doubleQuote] ++ (Utf8.characters t).flatMap (escape doubleQuote) ++ [doubleQuote]

def quoteCharacter (c : Character) : Text :=
  [singleQuote] ++ escape singleQuote c ++ [singleQuote]

-- The value of `n` hexadecimal digits at the start of a text.
def hexDigits (n : Nat) (t : Text) : Option Nat :=
  let ds := t.take n
  if ds.length = n && ds.all isHexByte then
    some (ds.foldl (fun v d => v * 16 + (digitValue d).getD 0) 0)
  else none

def isOctalByte (b : UInt8) : Bool := 0x30 ≤ b && b ≤ 0x37

-- The bytes an escape sequence stands for, and its length without the backslash.
def readEscape (quotation : UInt8) : Text → Option (Text × Nat)
  | [] => none
  | c :: rest =>
    match controlEscapes.find? (·.1 = c) with
    | some (_, control) => some ([control], 1)
    | none =>
      if c = backslash || c = quotation then some ([c], 1)
      else if c = 0x78 then (hexDigits 2 rest).map fun v => ([UInt8.ofNat v], 3)
      else if c = 0x75 then scalar 4 rest
      else if c = 0x55 then scalar 8 rest
      else if isOctalByte c then
        let ds := c :: rest.take 2
        let v := ds.foldl (fun v d => v * 8 + (d.toNat - 0x30)) 0
        if ds.length = 3 && ds.all isOctalByte && v ≤ 255 then some ([UInt8.ofNat v], 3) else none
      else none
where
  scalar (n : Nat) (rest : Text) : Option (Text × Nat) :=
    match hexDigits n rest with
    | some v => if Utf8.isScalar v then some (Utf8.encode v, n + 1) else none
    | none => none

-- The bytes the first character or escape sequence of `b :: rest` stands for, and its length.
-- Quotes and line ends have to be escaped.
def readCharacter (quotation b : UInt8) (rest : Text) : Option (Text × Nat) :=
  if b = quotation || b = newline then none
  else if b = backslash then (readEscape quotation rest).map fun (bytes, n) => (bytes, n + 1)
  else
    let c := Utf8.decode b rest
    some (Utf8.encode c.code, c.bytes.length)

-- Reads up to a closing double quote, which has to be the last byte.
def readString : (skip : Nat) → Text → Option Text
  | _, [] => none
  | 0, b :: rest =>
    if b = doubleQuote then (if rest.isEmpty then some [] else none)
    else
      match readCharacter doubleQuote b rest with
      | none => none
      | some (bytes, n) => (readString (n - 1) rest).map (bytes ++ ·)
  | skip + 1, _ :: rest => readString skip rest

-- Reads one character and a closing single quote. Nothing between the quotes is read as
-- an empty text.
def readSingle : Text → Option Text
  | [] => none
  | b :: rest =>
    if b = singleQuote then (if rest.isEmpty then some [] else none)
    else
      match readCharacter singleQuote b rest with
      | none => none
      | some (bytes, n) => if (b :: rest).drop n = [singleQuote] then some bytes else none

-- Reads up to a closing backquote. Carriage returns are dropped.
def readRaw (t : Text) : Option Text :=
  match t.reverse with
  | [] => none
  | last :: body =>
    if last = backquote && !body.contains backquote then
      some (body.reverse.filter (· ≠ carriageReturn))
    else none

-- What a quoted literal stands for, or none if it is malformed.
def unquote : Text → Option Text
  | [] => none
  | b :: rest =>
    if b = doubleQuote then readString 0 rest
    else if b = singleQuote then readSingle rest
    else if b = backquote then readRaw rest
    else none

end Quoted

end Lookahead
