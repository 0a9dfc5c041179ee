import Lookahead.Text

/-!
Sparse matrices. A position holds a pair of numbers of 32 bits: a first value, and a second one
that competes with it. Only positions that have been set take up room; their entries are sorted
by row and column. One number, the null value, stands for nothing.
-/

namespace Lookahead

structure Entry where
  row : Int
  col : Int
  first : Int32
  second : Int32
deriving DecidableEq, Repr

def Entry.isBefore (e : Entry) (row col : Int) : Bool :=
  e.row < row || (e.row = row && e.col < col)

def Entry.isAt (e : Entry) (row col : Int) : Bool := e.row = row && e.col = col

structure Matrix where
  rows : Int
  cols : Int
  null : Int32
  entries : Array Entry
deriving DecidableEq, Repr

namespace Matrix

structure OutOfRange where
  row : Int
  col : Int
  rows : Int
  cols : Int
deriving DecidableEq, Repr

def OutOfRange.message (e : OutOfRange) : Text :=
  text "sparse.IntMatrix: index (" ++ Text.ofInt e.row ++ text "," ++ Text.ofInt e.col ++
    text ") out of range " ++ Text.ofInt e.rows ++ text "x" ++ Text.ofInt e.cols

-- The least number of 32 bits, which no rule has as its number.
def defaultNull : Int32 := -2147483648

def empty (rows cols : Int) (null : Int32) : Matrix := ⟨rows, cols, null, #[]⟩

-- Bisects the entries from `low` to `high` for the first one that does not belong in front
-- of a position.
def bisect (entries : Array Entry) (row col : Int) (low high : Nat) : Nat :=
  if low < high then
    let middle := (low + high) / 2
    match entries[middle]? with
    | some e =>
      if e.isBefore row col then bisect entries row col (middle + 1) high
      else bisect entries row col low middle
    | none => low
  else low
termination_by high - low

-- Where the entry of a position is, or where it would have to be inserted.
def search (m : Matrix) (row col : Int) : Nat := bisect m.entries row col 0 m.entries.size

def entry? (m : Matrix) (row col : Int) : Option Entry :=
  match m.entries[m.search row col]? with
  | some e => if e.isAt row col then some e else none
  | none => none

def size (m : Matrix) : Nat := m.entries.size

def values (m : Matrix) (row col : Int) : Int32 × Int32 :=
  match m.entry? row col with
  | some e => (e.first, e.second)
  | none => (m.null, m.null)

def value (m : Matrix) (row col : Int) : Int32 := (m.values row col).1

def row (m : Matrix) (i : Int) : List Entry :=
  (m.entries.toList.drop (m.search i 0)).takeWhile (·.row = i)

-- Fills the first place of an entry that holds the null value. A full entry stays as it is.
def fill (null value : Int32) (e : Entry) : Entry :=
  if e.first = null then { e with first := value }
  else if e.second = null then { e with second := value }
  else e

-- Changes the entry of a position, or inserts a new one that holds `value`.
def update (m : Matrix) (row col : Int) (value : Int32) (change : Entry → Entry) :
    Except OutOfRange Matrix :=
  if row < 0 || m.rows ≤ row || col < 0 || m.cols ≤ col then
    .error ⟨row, col, m.rows, m.cols⟩
  else
    let i := m.search row col
    match m.entry? row col with
    | some e => .ok { m with entries := m.entries.setIfInBounds i (change e) }
    | none => .ok { m with entries := m.entries.insertIdxIfInBounds i ⟨row, col, value, m.null⟩ }

-- Stores a value and removes the second one.
def set (m : Matrix) (row col : Int) (value : Int32) : Except OutOfRange Matrix :=
  m.update row col value fun e => { e with first := value, second := m.null }

-- Stores a value as the first one of a new entry, or next to what is already there.
def add (m : Matrix) (row col : Int) (value : Int32) : Except OutOfRange Matrix :=
  m.update row col value (fill m.null value)

end Matrix

end Lookahead
