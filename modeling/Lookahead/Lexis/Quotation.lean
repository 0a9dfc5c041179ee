import Lookahead.Lexis.Glyph

/-!
Finding the end of a quoted literal in a text. Strings and character literals end at their
closing quote or, unterminated, at a line end; raw strings may have many lines.
-/

namespace Lookahead

namespace QuotationScan

-- What the glyph at the cursor is expected to be: any character of the literal, the character
-- behind a backslash, or one of a number of digits.
inductive Mode where
  | plain
  | escape
  | digits (base more : Nat)
deriving DecidableEq, Repr

def invalidEscape : Text := text "invalid char escape"
def notTerminated : Text := text "literal not terminated"

-- The letters of escape sequences of a single character, and the backslash.
def simpleEscapes : List Nat := [0x61, 0x62, 0x66, 0x6E, 0x72, 0x74, 0x76, 0x5C]

-- The letters of escape sequences with hexadecimal digits, and the number of digits.
def hexEscape? (code : Nat) : Option Nat :=
  if code = 0x78 then some 2
  else if code = 0x75 then some 4
  else if code = 0x55 then some 8
  else none

def isSimple (quotation : Nat) (g : Glyph) : Bool :=
  simpleEscapes.contains g.code || g.code = quotation

def isDigitOf (base : Nat) (g : Glyph) : Bool :=
  if base ≤ 10 then 0x30 ≤ g.code && g.code < 0x30 + base else g.isHex

-- What is expected of a glyph after an escape sequence that ends before it has been left.
-- The flag tells whether one has been left, and a message whether it was too short.
def settle (quotation : Nat) (g : Glyph) : Mode → Mode × Bool × Option Text
  | .plain => (.plain, false, none)
  | .escape =>
    if isSimple quotation g || (hexEscape? g.code).isSome then (.escape, false, none)
    else if isDigitOf 8 g then (.digits 8 3, false, none)
    else (.plain, true, some invalidEscape)
  | .digits base more =>
    if more = 0 then (.plain, true, none)
    else if isDigitOf base g then (.digits base more, false, none)
    else (.plain, true, some invalidEscape)

def noteAll (place : Text) (message : Option Text) (log : List Text) : List Text :=
  match message with
  | some m => Cursor.note place m :: log
  | none => log

-- What is wrong with an escape sequence at the end of the input, and whether there is one.
def atEnd : Mode → Bool × Option Text
  | .plain => (false, none)
  | .escape => (true, some invalidEscape)
  | .digits _ more => (true, if more = 0 then none else some invalidEscape)

-- Goes on behind an opening quote up to the closing one, a line end or the end of input, and
-- counts characters and escape sequences.
def bodyFrom (place : Text) (quotation : Nat) :
    Mode → (count : Nat) → List Glyph → List Text → Cursor × Nat
  | mode, count, [], log =>
    let (left, message) := atEnd mode
    let log := Cursor.note place notTerminated :: noteAll place message log
    (⟨[], log⟩, if left then count + 1 else count)
  | mode, count, g :: rest, log =>
    let (mode, left, message) := settle quotation g mode
    let log := noteAll place message log
    let count := if left then count + 1 else count
    let sighted := Cursor.sight place rest log
    match mode with
    | .plain =>
      if g.code = quotation then (⟨g :: rest, log⟩, count)
      else if g.code = 0x0A then (⟨g :: rest, Cursor.note place notTerminated :: log⟩, count)
      else if g.code = 0x5C then bodyFrom place quotation .escape count rest sighted
      else bodyFrom place quotation .plain (count + 1) rest sighted
    | .escape =>
      match hexEscape? g.code with
      | some digits => bodyFrom place quotation (.digits 16 digits) count rest sighted
      | none => bodyFrom place quotation .plain (count + 1) rest sighted
    | .digits base more => bodyFrom place quotation (.digits base (more - 1)) count rest sighted

def scan (place : Text) (quotation : Nat) (c : Cursor) : Cursor × Nat :=
  let c := c.advance place
  let (c, count) := bodyFrom place quotation .plain 0 c.ahead c.log
  (c, count)

def string (place : Text) (c : Cursor) : Cursor := (scan place 0x22 c).1.advance place

-- A character literal has to hold exactly one character.
def character (place : Text) (c : Cursor) : Cursor :=
  let (c, count) := scan place 0x27 c
  let c := if count = 1 then c else c.complain place (text "invalid char literal")
  c.advance place

def rawString (place : Text) (c : Cursor) : Cursor :=
  let c := (c.advance place).skipWhile place (·.code ≠ 0x60)
  let c := if c.ahead.isEmpty then c.complain place notTerminated else c
  c.advance place

end QuotationScan

end Lookahead
