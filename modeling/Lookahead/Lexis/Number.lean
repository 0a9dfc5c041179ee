import Lookahead.Lexis.Glyph
import Lookahead.Numeral.Separator
import Lookahead.Text.Quoted
import Lookahead.Token

/-!
Finding the end of a numeral in a text. Numerals are taken as far as they reach, and what is
wrong with them is reported on the way.
-/

namespace Lookahead

namespace NumberScan

-- How a numeral starts: with a mark for its base, with a zero, or with neither.
inductive Mark where
  | none
  | zero
  | hexadecimal
  | octal
  | binary
deriving DecidableEq, Repr

def Mark.base : Mark → Nat
  | none => 10
  | zero => 8
  | hexadecimal => 16
  | octal => 8
  | binary => 2

def Mark.literalName : Mark → Text
  | none => text "decimal literal"
  | zero => text "octal literal"
  | hexadecimal => text "hexadecimal literal"
  | octal => text "octal literal"
  | binary => text "binary literal"

-- What has been seen of the digits: whether there are any, whether there are underscores, and
-- the first digit that is too large for the base.
structure Digits where
  sawDigit : Bool
  sawSeparator : Bool
  invalid : Option Glyph
deriving DecidableEq, Repr

def Digits.none : Digits := ⟨false, false, .none⟩

def isUnderscore (g : Glyph) : Bool := g.code = 0x5F

def digitsFrom (place : Text) (base : Nat) :
    List Glyph → List Text → Digits → Cursor × Digits
  | [], log, d => (⟨[], log⟩, d)
  | g :: rest, log, d =>
    if isUnderscore g then
      digitsFrom place base rest (Cursor.sight place rest log) { d with sawSeparator := true }
    else if g.isDecimal || (10 < base && g.isHex) then
      let tooLarge := base ≤ 10 && 0x30 + base ≤ g.code
      let invalid := if tooLarge then d.invalid <|> some g else d.invalid
      digitsFrom place base rest (Cursor.sight place rest log)
        { d with sawDigit := true, invalid := invalid }
    else (⟨g :: rest, log⟩, d)

def digits (place : Text) (base : Nat) (c : Cursor) (d : Digits) : Cursor × Digits :=
  digitsFrom place base c.ahead c.log d

-- Takes the start of a numeral up to its digits. A zero that is no part of a mark counts as
-- a digit.
def start (place : Text) (c : Cursor) : Mark × Cursor × Digits :=
  if c.isAt (·.code = 0x30) then
    let c := c.advance place
    if c.isAt (·.lower = 0x78) then (.hexadecimal, c.advance place, .none)
    else if c.isAt (·.lower = 0x6F) then (.octal, c.advance place, .none)
    else if c.isAt (·.lower = 0x62) then (.binary, c.advance place, .none)
    else (.zero, c, { Digits.none with sawDigit := true })
  else (.none, c, .none)

def fraction (place : Text) (mark : Mark) (c : Cursor) (d : Digits) : Cursor × Digits :=
  let c :=
    if mark = .octal || mark = .binary then
      c.complain place (text "invalid radix point in " ++ mark.literalName)
    else c
  digits place mark.base c d

def quotedAhead (c : Cursor) : Text :=
  match c.ahead with
  | g :: _ => Quoted.quoteCharacter g.character
  | [] => []

def exponent (place : Text) (mark : Mark) (c : Cursor) (d : Digits) : Cursor × Digits :=
  let isDecimalLetter := c.isAt (·.lower = 0x65)
  let c :=
    if isDecimalLetter && mark ≠ .none && mark ≠ .zero then
      c.complain place (quotedAhead c ++ text " exponent requires decimal mantissa")
    else if !isDecimalLetter && mark ≠ .hexadecimal then
      c.complain place (quotedAhead c ++ text " exponent requires hexadecimal mantissa")
    else c
  let c := c.advance place
  let c := if c.isAt (fun g => g.code = 0x2B || g.code = 0x2D) then c.advance place else c
  let (c, e) := digits place 10 c .none
  let c := if e.sawDigit then c else c.complain place (text "exponent has no digits")
  (c, { d with sawSeparator := d.sawSeparator || e.sawSeparator })

-- Takes a whole numeral, of which a point may already have been taken. `token` is where the token
-- starts. The result is the token's type and the cursor behind the numeral.
def scan (place : Text) (token : List Glyph) (c : Cursor) (sawPoint : Bool) : TokenType × Cursor :=
  let (mark, c, d) := if sawPoint then (.none, c, .none) else start place c
  let (c, d) := if sawPoint then (c, d) else digits place mark.base c d
  let isPoint := !sawPoint && c.isAt (·.code = 0x2E)
  let c := if isPoint then c.advance place else c
  let (c, d) := if sawPoint || isPoint then fraction place mark c d else (c, d)
  let c := if d.sawDigit then c else c.complain place (mark.literalName ++ text " has no digits")
  let hasExponent := c.isAt fun g => g.lower = 0x65 || g.lower = 0x70
  let (c, d) :=
    if hasExponent then exponent place mark c d
    else if mark = .hexadecimal && (sawPoint || isPoint) then
      (c.complain place (text "hexadecimal mantissa requires a 'p' exponent"), d)
    else (c, d)
  let isInteger := !sawPoint && !isPoint && !hasExponent
  let c :=
    match isInteger, d.invalid with
    | true, some g =>
      c.complain place (text "invalid digit " ++ Quoted.quoteCharacter g.character ++ text " in " ++
        mark.literalName)
    | _, _ => c
  let c :=
    if d.sawSeparator && !Numeral.isWellSeparated (Glyph.textUpTo token c.ahead) then
      c.complain place (text "'_' must separate successive digits")
    else c
  (if isInteger then TokenType.integer else TokenType.real, c)

end NumberScan

end Lookahead
