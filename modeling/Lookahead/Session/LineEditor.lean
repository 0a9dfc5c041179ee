import Lookahead.Session.Key

/-!
A line editor. Keys change a line at the cursor, until it is entered. Lines that have been entered
can be called back; each of them, and the new line, keeps its changes while one goes from line to
line.
-/

namespace Lookahead

abbrev Line := List Nat

-- The part of the line in front of the cursor is kept in reverse, and `surplus` is the distance of
-- the cursor from the end of the line, if it stands behind it. The lines around the current one
-- and the lines that have been entered are kept with the nearest and the latest one first.
structure LineEditor where
  before : Line
  after : Line
  surplus : Nat
  killed : Line
  earlier : List Line
  later : List Line
  entered : List Line
  isUntouched : Bool
deriving DecidableEq, Repr

namespace LineEditor

def new : LineEditor := ⟨[], [], 0, [], [], [], [], true⟩

def line (e : LineEditor) : Line := e.before.reverse ++ e.after

def isEmpty (e : LineEditor) : Bool := e.before.isEmpty && e.after.isEmpty

def display (e : LineEditor) (line : Line) : LineEditor :=
  { e with before := line.reverse, after := [], surplus := 0 }

def toStart (e : LineEditor) : LineEditor := { e with before := [], after := e.line, surplus := 0 }

def toEnd (e : LineEditor) : LineEditor := e.display e.line

def backward (e : LineEditor) : LineEditor :=
  match e.surplus, e.before with
  | n + 1, _ => { e with surplus := n }
  | 0, c :: rest => { e with before := rest, after := c :: e.after }
  | 0, [] => e

-- Behind the end of the line the cursor goes on moving.
def forward (e : LineEditor) : LineEditor :=
  match e.surplus, e.after with
  | n + 1, _ => { e with surplus := n + 2 }
  | 0, c :: rest => { e with before := c :: e.before, after := rest }
  | 0, [] => e

def insert (e : LineEditor) (codes : Line) : LineEditor :=
  { e with before := codes.reverse ++ e.before }

def isWordCode (code : Nat) : Bool :=
  (0x30 ≤ code && code ≤ 0x39) || (0x41 ≤ code && code ≤ 0x5A) || (0x61 ≤ code && code ≤ 0x7A)

-- Splits a line, given in reverse, behind the start of its last word. Nothing is left over if the
-- word starts the line, or if there is none.
def splitBack : Line → Line × Line
  | a :: b :: rest =>
    if isWordCode a && !isWordCode b then ([a], b :: rest)
    else
      let (word, rest) := splitBack (b :: rest)
      (a :: word, rest)
  | short => (short, [])

-- Splits a line in front of the next word that starts in it. Nothing is left over if there is none.
def splitAhead : Line → Line × Line
  | a :: b :: rest =>
    if !isWordCode a && isWordCode b then ([a], b :: rest)
    else
      let (word, rest) := splitAhead (b :: rest)
      (a :: word, rest)
  | short => (short, [])

def wordBackward (e : LineEditor) : LineEditor :=
  let (word, rest) := splitBack e.before
  { e with before := rest, after := word.reverse ++ e.after }

def wordForward (e : LineEditor) : LineEditor :=
  let (word, rest) := splitAhead e.after
  { e with before := word.reverse ++ e.before, after := rest, surplus := 0 }

def killLine (e : LineEditor) : LineEditor := { e with after := [], killed := e.after }

-- Nothing happens at the start of the line.
def killFront (e : LineEditor) : LineEditor :=
  if e.before.isEmpty then e else { e with before := [], killed := e.before.reverse }

-- Deletes up to the last character in front of the next word. Without one, the rest of the line
-- is deleted.
def killWord (e : LineEditor) : LineEditor :=
  let blanks := e.after.takeWhile fun c => !isWordCode c
  let (word, rest) := splitAhead (e.after.dropWhile fun c => !isWordCode c)
  if e.after.isEmpty then e
  else if rest.isEmpty then e.killLine
  else
    { e with after := word.drop (word.length - 1) ++ rest, killed := blanks ++ word.dropLast }

-- Deletes the word before the cursor. If it starts the line, the whole line is deleted.
def eraseWord (e : LineEditor) : LineEditor :=
  let (word, rest) := splitBack e.before
  if e.before.isEmpty then e
  else if rest.isEmpty then { e with before := [], after := [] }
  else { e with before := rest, killed := word.reverse }

-- Exchanges the characters around the cursor; at the ends of a line, the two characters there. With
-- a single character, the cursor moves nevertheless.
def transpose (e : LineEditor) : LineEditor :=
  match e.before, e.after with
  | [], [] => e
  | [], [_] => e.forward
  | [_], [] => { e with surplus := e.surplus + 1 }
  | [], a :: b :: rest => { e with before := [a, b], after := rest }
  | a :: b :: rest, [] => { e with before := b :: a :: rest, surplus := 0 }
  | a :: rest, b :: after => { e with before := a :: b :: rest, after := after }

-- What a key leads to: a changed line and something to be shown, a line that is entered, the end
-- of all input, or a crash.
inductive Outcome where
  | edited (e : LineEditor) (shown : Text)
  | entered (line : Text) (e : LineEditor)
  | ended
  | crashed
deriving DecidableEq, Repr

def bell : Text := [0x07]

def clearing : Text := text "\x1b[H"

def edit (e : LineEditor) (shown : Text) : Outcome := .edited { e with isUntouched := false } shown

-- Changes the text of a line, which is impossible with the cursor behind its end.
def alter (e : LineEditor) (change : LineEditor → LineEditor) : Outcome :=
  if e.surplus = 0 then (change e).edit [] else .crashed

-- Whether a line is worth being called back. One that repeats its predecessor is not, and an
-- empty one only if it is the very first input.
def isRemembered (e : LineEditor) : Bool :=
  e.entered.head? ≠ some e.line && (!e.isEmpty || e.isUntouched)

def memory : Nat := 499

-- Enters the line and starts a new one. The oldest lines are forgotten.
def enter (e : LineEditor) : Outcome :=
  let lines := if e.isRemembered then (e.line :: e.entered).take memory else e.entered
  .entered (e.line.flatMap Utf8.encode)
    { e with
      before := [], after := [], surplus := 0, earlier := lines, later := [], entered := lines,
      isUntouched := false }

def previous (e : LineEditor) : Outcome :=
  match e.earlier with
  | [] => e.edit bell
  | line :: rest =>
    ({ e with earlier := rest, later := e.line :: e.later }.display line).edit []

def next (e : LineEditor) : Outcome :=
  match e.later with
  | [] => e.edit bell
  | line :: rest =>
    ({ e with earlier := e.line :: e.earlier, later := rest }.display line).edit []

-- At the end of a line there is nothing to delete; an empty line means the end of input.
def delete (e : LineEditor) : Outcome :=
  if e.isEmpty then .ended
  else
    match e.after with
    | [] => if e.surplus = 0 then e.edit bell else .crashed
    | c :: rest => { e with after := rest, killed := [c] }.edit []

def backspace (e : LineEditor) : Outcome :=
  if e.isEmpty then e.edit bell else e.alter fun e => { e with before := e.before.tail }

-- Presses a key. Searching needs a screen.
def press (e : LineEditor) : Key → Outcome
  | .character code => e.alter (·.insert [code])
  | .enter => e.enter
  | .endOfInput => if e.isEmpty then .ended else e.enter
  | .interrupt => .ended
  | .delete => e.delete
  | .backspace => e.backspace
  | .lineStart => e.toStart.edit []
  | .lineEnd => e.toEnd.edit []
  | .backward => e.backward.edit []
  | .forward => e.forward.edit []
  | .wordBackward => e.alter wordBackward
  | .wordForward => e.wordForward.edit []
  | .killLine => e.alter killLine
  | .killFront => e.alter killFront
  | .killWord => e.alter killWord
  | .eraseWord => e.alter eraseWord
  | .transpose => e.transpose.edit []
  | .yank => if e.killed.isEmpty then e.edit [] else e.alter fun e => e.insert e.killed
  | .previous => e.previous
  | .next => e.next
  | .search => .crashed
  | .clearScreen => e.edit clearing
  | .none => e.edit []

end LineEditor

end Lookahead
