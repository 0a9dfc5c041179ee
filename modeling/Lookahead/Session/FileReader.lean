import Lookahead.Session.Directory

/-!
Reading a file line by line. Bytes are taken from the file in large pieces, whenever the piece at
hand contains no whole line, so that a file may change while its lines are being read.
-/

namespace Lookahead

-- The bytes at hand start at `start` in a buffer of size `capacity`. `offset` bytes of the file
-- have been taken, and there are no more if `isDone` is set.
structure FileReader where
  bytes : Text
  start : Nat
  capacity : Nat
  offset : Nat
  isDone : Bool
deriving DecidableEq, Repr

namespace FileReader

-- The size of the first buffer, and the greatest one.
def firstCapacity : Nat := 4096

def lastCapacity : Nat := 65536

def new : FileReader := ⟨[], 0, 0, 0, false⟩

inductive Reading where
  | line (line : Text) (rest : FileReader)
  | lineTooLong
  | done
deriving DecidableEq, Repr

-- A carriage return in front of a line end belongs to it.
def dropReturn (line : Text) : Text :=
  if line.getLast? = some 0x0D then line.dropLast else line

-- The first line of the bytes at hand. The last line need not have an end.
def takeLine? (r : FileReader) : Option (Text × FileReader) :=
  let line := r.bytes.takeWhile (· ≠ 0x0A)
  let taken := line.length + 1
  if line.length < r.bytes.length then
    some (dropReturn line, { r with bytes := r.bytes.drop taken, start := r.start + taken })
  else if r.isDone && !r.bytes.isEmpty then
    some (dropReturn line, { r with bytes := [], start := r.start + line.length })
  else none

def stop (r : FileReader) : Nat := r.start + r.bytes.length

-- Moves the bytes to the front of the buffer, if there is no room behind them, or much in front.
def shift (r : FileReader) : FileReader :=
  if r.stop = r.capacity || r.capacity / 2 < r.start then { r with start := 0 } else r

-- Makes room in a full buffer, as long as it may grow.
def grow? (r : FileReader) : Option FileReader :=
  if r.stop < r.capacity then some r
  else if lastCapacity ≤ r.capacity then none
  else some { r with start := 0, capacity := max firstCapacity (2 * r.capacity) }

def fill (r : FileReader) (content : Text) : FileReader :=
  let piece := (content.drop r.offset).take (r.capacity - r.stop)
  { r with bytes := r.bytes ++ piece, offset := r.offset + piece.length, isDone := piece.isEmpty }

-- The next line of a file with the given content. Every step of fuel takes bytes from the file or
-- comes to its end.
def nextFrom (content : Text) : (fuel : Nat) → FileReader → Reading
  | 0, _ => .done
  | fuel + 1, r =>
    match r.takeLine? with
    | some (line, rest) => .line line rest
    | none =>
      if r.isDone then .done
      else
        match r.shift.grow? with
        | none => .lineTooLong
        | some r => nextFrom content fuel (r.fill content)

def next (r : FileReader) (content : Text) : Reading :=
  r.nextFrom content (content.length + 3)

end FileReader

end Lookahead
