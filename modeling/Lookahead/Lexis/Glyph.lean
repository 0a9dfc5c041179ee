import Lookahead.Text.Utf8

/-!
Characters of an input together with their positions. A cursor stands at a character and
keeps a log of what has been found wrong so far.
-/

namespace Lookahead

-- Lines and columns start with 1, and columns count characters.
structure Glyph where
  code : Nat
  bytes : Text
  wellFormed : Bool
  offset : Nat
  line : Nat
  column : Nat
deriving DecidableEq, Repr

namespace Glyph

def character (g : Glyph) : Character := ⟨g.code, g.bytes, g.wellFormed⟩

def fault? (g : Glyph) : Option Text :=
  if !g.wellFormed then some (text "invalid UTF-8 encoding")
  else if g.code = 0 then some (text "invalid character NUL")
  else none

def lower (g : Glyph) : Nat := g.code ||| 0x20

def isDecimal (g : Glyph) : Bool := 0x30 ≤ g.code && g.code ≤ 0x39

def isHex (g : Glyph) : Bool := g.isDecimal || (0x61 ≤ g.lower && g.lower ≤ 0x66)

def locate (offset line column : Nat) : List Character → List Glyph
  | [] => []
  | c :: rest =>
    let after := offset + c.bytes.length
    ⟨c.code, c.bytes, c.wellFormed, offset, line, column⟩ ::
      if c.code = 0x0A then locate after (line + 1) 1 rest
      else locate after line (column + 1) rest

def ofText (t : Text) : List Glyph := locate 0 1 1 (Utf8.characters t)

-- The bytes of the glyphs from `start` up to `stop`, a rest of `start`.
def textUpTo (start stop : List Glyph) : Text :=
  match stop with
  | [] => start.flatMap (·.bytes)
  | g :: _ => (start.takeWhile (·.offset < g.offset)).flatMap (·.bytes)

end Glyph

-- The last message comes first in the log.
structure Cursor where
  ahead : List Glyph
  log : List Text
deriving DecidableEq, Repr

namespace Cursor

def note (place message : Text) : Text := place ++ text ": " ++ message

def complain (place message : Text) (c : Cursor) : Cursor :=
  { c with log := note place message :: c.log }

-- The log after the next glyph has come into sight.
def sight (place : Text) (ahead : List Glyph) (log : List Text) : List Text :=
  match ahead.head?.bind Glyph.fault? with
  | some message => note place message :: log
  | none => log

def advance (place : Text) (c : Cursor) : Cursor :=
  ⟨c.ahead.tail, if c.ahead.isEmpty then c.log else sight place c.ahead.tail c.log⟩

def isAt (c : Cursor) (p : Glyph → Bool) : Bool := c.ahead.head?.any p

def skipWhileFrom (place : Text) (p : Glyph → Bool) : List Glyph → List Text → Cursor
  | [], log => ⟨[], log⟩
  | g :: rest, log =>
    if p g then skipWhileFrom place p rest (sight place rest log) else ⟨g :: rest, log⟩

def skipWhile (place : Text) (p : Glyph → Bool) (c : Cursor) : Cursor :=
  skipWhileFrom place p c.ahead c.log

end Cursor

end Lookahead
