import Lookahead.Text.Numeric
import Lookahead.Text.Utf8

/-!
Keys of a line editor. They arrive as characters; some of them are spelled as escape sequences.
-/

namespace Lookahead

inductive Key where
  | character (code : Nat)
  | enter
  | endOfInput
  | interrupt
  | delete
  | backspace
  | lineStart
  | lineEnd
  | backward
  | forward
  | wordBackward
  | wordForward
  | killLine
  | killFront
  | killWord
  | eraseWord
  | transpose
  | yank
  | previous
  | next
  | search
  | clearScreen
  | none
deriving DecidableEq, Repr

namespace Key

def ofCode (code : Nat) : Key :=
  match code with
  | 0x00 => endOfInput
  | 0x01 => lineStart
  | 0x02 => backward
  | 0x03 => interrupt
  | 0x04 => delete
  | 0x05 => lineEnd
  | 0x06 => forward
  | 0x07 => none
  | 0x08 => backspace
  | 0x0A => enter
  | 0x0B => killLine
  | 0x0C => clearScreen
  | 0x0D => enter
  | 0x0E => next
  | 0x10 => previous
  | 0x12 => search
  | 0x13 => search
  | 0x14 => transpose
  | 0x15 => killFront
  | 0x17 => eraseWord
  | 0x19 => yank
  | 0x1A => none
  | 0x7F => backspace
  | _ => character code

-- How far an escape sequence has been read: not at all, behind the escape character, behind a
-- bracket and parameters, or behind the letter O.
inductive Escape where
  | outside
  | escaped
  | bracket (parameters : List Nat)
  | letter
deriving DecidableEq, Repr

-- The key for a final character and the parameters in front of it.
def ofSequence (parameters : List Nat) (code : Nat) : List Key :=
  match code with
  | 0x41 => [previous]
  | 0x42 => [next]
  | 0x43 => [forward]
  | 0x44 => [backward]
  | 0x46 => [lineEnd]
  | 0x48 => [lineStart]
  | 0x7E => if parameters = [0x33] then [delete] else []
  | _ => []

-- A key that is no character of its own, but looks like the replacement character.
def unassigned : Key := character 0x110000

-- The key for a character behind the escape character. One without a meaning of its own stands
-- for itself.
def ofEscaped (code : Nat) : Key :=
  match code with
  | 0x62 => wordBackward
  | 0x64 => killWord
  | 0x66 => wordForward
  | 0x14 => unassigned
  | 0x7F => eraseWord
  | _ => ofCode code

def readPlain (code : Nat) : Escape × List Key :=
  if code = 0x1B then (.escaped, []) else (.outside, [ofCode code])

def read (escape : Escape) (code : Nat) : Escape × List Key :=
  match escape with
  | .outside => readPlain code
  | .escaped =>
    if code = 0x5B then (.bracket [], [])
    else if code = 0x4F then (.letter, [])
    else if code = 0x1B then (.escaped, [])
    else (.outside, [ofEscaped code])
  | .bracket parameters =>
    if code = 0x3B || isNumeric code then (.bracket (parameters ++ [code]), [])
    else (.outside, ofSequence parameters code)
  | .letter =>
    if code = 0x48 then (.outside, [lineStart])
    else if code = 0x46 then (.outside, [lineEnd])
    else
      let (escape, keys) := readPlain code
      (escape, character 0x4F :: keys)

def readAll : Escape → List Nat → Escape × List Key
  | escape, [] => (escape, [])
  | escape, code :: rest =>
    let (escape, keys) := read escape code
    let (last, more) := readAll escape rest
    (last, keys ++ more)

-- What an unfinished escape sequence stands for at the end of input.
def atEnd : Escape → List Key
  | .letter => [character 0x4F]
  | _ => []

def codesOf (t : Text) : List Nat := (Utf8.characters t).map (·.code)

def ofText (t : Text) : List Key :=
  let (escape, keys) := readAll .outside (codesOf t)
  keys ++ atEnd escape

end Key

end Lookahead
