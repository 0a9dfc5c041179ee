import Lookahead.Lexis.Regex
import Lookahead.Sorting

/-!
Reading regular expressions. Besides literal bytes there are `.` for any byte, classes in
brackets, escapes behind a backslash, groups, alternatives and the operators `*`, `+` and `?`.

What is read is a regular expression, or nothing at all, as in an empty group. Nothing may only
stand behind an expression. A part that cannot be read counts for nothing as well, and reading goes
on where it had to stop, so that the text is refused if something is left over.
-/

namespace Lookahead

namespace RegexReader

-- A byte behind a backslash: a control character, or the byte itself.
def escapedByte (b : UInt8) : UInt8 :=
  if b = 0x6E then 0x0A
  else if b = 0x72 then 0x0D
  else if b = 0x74 then 0x09
  else b

def digitClass : ByteClass := ⟨[(0x30, 0x39)]⟩

def blankClass : ByteClass := ⟨[(0x09, 0x0A), (0x0C, 0x0D), (0x20, 0x20)]⟩

def wordClass : ByteClass :=
  ⟨[(0x30, 0x39), (0x41, 0x5A), (0x5F, 0x5F), (0x61, 0x7A)]⟩

-- The class an escaped byte stands for: digits, white space, word characters, what is none of
-- them, or a single byte.
def escapeClass (b : UInt8) : ByteClass :=
  if b = 0x64 then digitClass
  else if b = 0x73 then blankClass
  else if b = 0x77 then wordClass
  else if b = 0x44 then digitClass.complement
  else if b = 0x53 then blankClass.complement
  else if b = 0x57 then wordClass.complement
  else .single (escapedByte b)

-- Where the reader of a class is: before the first member, behind a member that may still become
-- the start of a range, behind the hyphen of a range, or behind a range.
inductive Place where
  | start
  | behind (member : UInt8)
  | inRange (low : UInt8)
  | between
deriving DecidableEq, Repr

abbrev Ranges := List (UInt8 × UInt8)

-- The ranges that are complete when a member comes next, and the place behind it. The ends of a
-- range may come in either order.
def addMember (ranges : Ranges) (b : UInt8) : Place → Ranges × Place
  | .behind a => (ranges ++ [(a, a)], .behind b)
  | .inRange low => (ranges ++ [(min low b, max low b)], .between)
  | _ => (ranges, .behind b)

-- The ranges of a class that is closed, unless the bracket is a member.
def closeAt (ranges : Ranges) : Place → Option Ranges
  | .behind a => some (ranges ++ [(a, a)])
  | .between => some ranges
  | _ => none

-- Reads the members of a class up to its closing bracket, and tells what follows.
def readMembers (ranges : Ranges) : Place → Text → Option (Ranges × Text)
  | _, [] => none
  | .behind a, b :: rest =>
    if b = 0x2D then readMembers ranges (.inRange a) rest
    else if b = 0x5D then (closeAt ranges (.behind a)).map (·, rest)
    else if b = 0x5C then
      match rest with
      | [] => none
      | e :: rest =>
        let (ranges, place) := addMember ranges (escapedByte e) (.behind a)
        readMembers ranges place rest
    else
      let (ranges, place) := addMember ranges b (.behind a)
      readMembers ranges place rest
  | place, b :: rest =>
    if b = 0x5D && place = .between then (closeAt ranges place).map (·, rest)
    else if b = 0x5C then
      match rest with
      | [] => none
      | e :: rest =>
        let (ranges, place) := addMember ranges (escapedByte e) place
        readMembers ranges place rest
    else
      let (ranges, place) := addMember ranges b place
      readMembers ranges place rest

-- Ranges are ordered by their low ends, and the shorter one of two comes first.
def comesFirst (r s : UInt8 × UInt8) : Bool := r.1 < s.1 || (r.1 = s.1 && r.2 ≤ s.2)

-- The ranges of an ordered list behind a first one. Of ranges that start alike, the first one
-- counts. A range that starts within its predecessor, or right behind it, ends it at its own high
-- end; none is right behind the last byte.
def mergeBehind (r : UInt8 × UInt8) : Ranges → Ranges
  | [] => [r]
  | s :: rest =>
    if s.1 = r.1 then mergeBehind r rest
    else if s.1 ≤ r.2 + 1 then mergeBehind (r.1, s.2) rest
    else r :: mergeBehind s rest

def mergeRanges (ranges : Ranges) : Ranges :=
  match sortBy comesFirst ranges with
  | [] => []
  | r :: rest => mergeBehind r rest

def readClass (t : Text) : Option (ByteClass × Text) :=
  let isNegated := t.head? = some 0x5E
  (readMembers [] .start (if isNegated then t.tail else t)).map fun (ranges, rest) =>
    let c : ByteClass := ⟨mergeRanges ranges⟩
    (if isNegated then c.complement else c, rest)

-- What a part of a text stands for. It is broken if nothing stands where an expression should be.
inductive Part where
  | nothing
  | regex (r : Regex)
  | broken
deriving DecidableEq, Repr

namespace Part

def map (f : Regex → Regex) : Part → Part
  | regex r => regex (f r)
  | _ => broken

-- Two parts together. Nothing may stand behind an expression, or behind nothing.
def join (f : Regex → Regex → Regex) : Part → Part → Part
  | nothing, nothing => nothing
  | regex r, nothing => regex r
  | regex r, regex s => regex (f r s)
  | _, _ => broken

def ofClass (c : ByteClass) : Part := regex (.bytes c)

def toRegex? : Part → Option Regex
  | regex r => some r
  | _ => none

end Part

def isOperator (b : UInt8) : Bool := b = 0x2A || b = 0x2B || b = 0x3F

def applyOperator (b : UInt8) (r : Regex) : Regex :=
  if b = 0x2A then r.zeroOrMore
  else if b = 0x2B then r.oneOrMore
  else r.zeroOrOne

-- Applies all operators at the front of a text, and tells what follows.
def readOperators (p : Part) : Text → Part × Text
  | [] => (p, [])
  | b :: rest =>
    if isOperator b then readOperators (p.map (applyOperator b)) rest else (p, b :: rest)

-- A part at the front of a text, if it can be read, and where reading goes on.
abbrev Reading := Option Part × Text

def withOperators (p : Part) (t : Text) : Reading :=
  let (p, rest) := readOperators p t
  (some p, rest)

-- A class, an escape or a byte at the front of `b :: rest`. Operators, closing brackets, bars and
-- circumflexes are none of them. A class must have a byte.
def readUnit (b : UInt8) (rest : Text) : Reading :=
  if b = 0x5B then
    match readClass rest with
    | none => (none, [])
    | some (c, behind) =>
      if c.isEmpty then (none, b :: rest) else withOperators (.ofClass c) behind
  else if isOperator b || b = 0x7C || b = 0x29 || b = 0x5D || b = 0x5E then (none, b :: rest)
  else if b = 0x5C then
    match rest with
    | [] => (some (.ofClass (.single b)), [])
    | e :: rest => withOperators (.ofClass (escapeClass e)) rest
  else withOperators (.ofClass (if b = 0x2E then .any else .single b)) rest

mutual

def readExpression : (fuel : Nat) → Text → Part × Text
  | 0, t => (.nothing, t)
  | fuel + 1, t =>
    match readSequence fuel t with
    | (p, 0x7C :: rest) =>
      let (q, rest) := readExpression fuel rest
      (p.join .alt q, rest)
    | sequence => sequence

-- Items, up to the first one that cannot be read.
def readSequence : (fuel : Nat) → Text → Part × Text
  | 0, t => (.nothing, t)
  | _ + 1, [] => (.nothing, [])
  | fuel + 1, b :: rest =>
    match readItem fuel b rest with
    | (some p, rest) =>
      let (q, rest) := readSequence fuel rest
      (p.join .cat q, rest)
    | (none, rest) => (.nothing, rest)

-- A group, or what stands for a byte, with its operators.
def readItem : (fuel : Nat) → UInt8 → Text → Reading
  | 0, b, rest => (none, b :: rest)
  | fuel + 1, b, rest =>
    if b = 0x28 then
      match readExpression fuel rest with
      | (p, 0x29 :: rest) => withOperators p rest
      | (_, rest) => (none, rest)
    else readUnit b rest

end

-- The expression a text stands for, or none if it is malformed. Three steps of fuel lead from one
-- byte to the next.
def read? (t : Text) : Option Regex :=
  match readExpression (3 * t.length + 3) t with
  | (p, []) => p.toRegex?
  | _ => none

end RegexReader

end Lookahead
