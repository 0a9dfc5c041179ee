import Lookahead.Analysis
import Lookahead.Matrix

/-!
LL(1) tables. A rule `A ➞ α` is entered into the row of `A` for every column in FIRST(α), and if
`α` is nullable for every column in FOLLOW(A). A cell keeps the rule that came first; each later
rule for the same cell is a conflict.

Cells hold numbers of rules. The rule itself is found by its number among the rules of the
grammar, and a number without a rule is a fault.
-/

namespace Lookahead

-- What becomes of a table with conflicts: it is refused, or used anyway.
inductive Policy where
  | strict
  | bestEffort
deriving DecidableEq, Repr

namespace Policy

def name : Policy → Text
  | strict => text "strict"
  | bestEffort => text "best-effort"

-- The policy with a given code. All codes but 1 mean strict.
def ofCode (code : Int) : Policy := if code = 1 then bestEffort else strict

-- The last option wins, and without options tables are strict.
def ofOptions (options : List Policy) : Policy := options.getLast?.getD strict

end Policy

-- A cell for which two rules apply: the one kept in the cell and a later one.
structure Conflict where
  nonterminal : Nat
  lookahead : Symbol
  existing : Rule
  competing : Rule
deriving DecidableEq, Repr

structure Table where
  analysis : Analysis
  matrix : Matrix
  conflicts : List Conflict
  policy : Policy
deriving DecidableEq

namespace Table

-- A table that cannot be used: a cell with a number no rule has, or a cell outside the table.
inductive Fault where
  | noSuchRule (number : Int32)
  | noSuchCell (position : Matrix.OutOfRange)
deriving DecidableEq, Repr

def grammar (t : Table) : Grammar := t.analysis.grammar

def ruleNumbered (g : Grammar) (number : Int32) : Except Fault Rule :=
  match g.rule? number.toInt with
  | some r => .ok r
  | none => .error (.noSuchRule number)

def cellChange (m : Except Matrix.OutOfRange Matrix) : Except Fault Matrix :=
  m.mapError .noSuchCell

-- The columns a rule is entered into.
def triggers (a : Analysis) (r : Rule) : IndexSet :=
  let (f, nullable) := a.firstColumns r.rhs
  if nullable then f.union (Analysis.setOf a.follow r.lhs) else f

def enter (g : Grammar) (r : Rule) (m : Matrix) (col : Nat) :
    Except Fault (Matrix × List Conflict) := do
  let number := Int32.ofNat r.serial
  let existing := m.value r.lhs col
  if existing = m.null then
    return (← cellChange (m.set r.lhs col number), [])
  else
    let kept ← ruleNumbered g existing
    return (← cellChange (m.add r.lhs col number), [⟨r.lhs, g.columnSymbol col, kept, r⟩])

def enterAll (g : Grammar) (r : Rule) (m : Matrix) : List Nat →
    Except Fault (Matrix × List Conflict)
  | [] => .ok (m, [])
  | col :: cols => do
    let (m, here) ← enter g r m col
    let (m, later) ← enterAll g r m cols
    return (m, here ++ later)

def enterRules (a : Analysis) (m : Matrix) : List Rule → Except Fault (Matrix × List Conflict)
  | [] => .ok (m, [])
  | r :: rules => do
    let (m, here) ← enterAll a.grammar r m (triggers a r).members
    let (m, later) ← enterRules a m rules
    return (m, here ++ later)

def build (a : Analysis) (options : List Policy) : Except Fault Table := do
  let g := a.grammar
  let blank := Matrix.empty g.nonterminals.length g.columnCount Matrix.defaultNull
  let (matrix, conflicts) ← enterRules a blank g.rules
  return { analysis := a, matrix := matrix, conflicts := conflicts, policy := .ofOptions options }

def hasConflicts (t : Table) : Bool := !t.conflicts.isEmpty

-- A predictive parser would not end on a left-recursive grammar.
def isLeftRecursive (t : Table) : Bool := !t.analysis.leftRecursive.isEmpty

def size (t : Table) : Nat := t.matrix.size

-- The rule for a number in a cell, if it is not the null value.
def ruleIn (t : Table) (number : Int32) : Except Fault (Option Rule) :=
  if number = t.matrix.null then .ok none else (ruleNumbered t.grammar number).map some

-- The rule to expand a non-terminal with, given a lookahead.
def lookup (t : Table) (s lookahead : Symbol) : Except Fault (Option Rule) :=
  match s, lookahead with
  | _, .nonterminal _ => .ok none
  | .nonterminal i, _ => t.ruleIn (t.matrix.value i (t.grammar.column lookahead))
  | _, _ => .ok none

-- The rule kept in a cell, and the first one that competes with it.
def cell (t : Table) (s lookahead : Symbol) : Except Fault (Option Rule × Option Rule) :=
  match s, lookahead with
  | _, .nonterminal _ => .ok (none, none)
  | .nonterminal i, _ => do
    let (first, second) := t.matrix.values i (t.grammar.column lookahead)
    return (← t.ruleIn first, ← t.ruleIn second)
  | _, _ => .ok (none, none)

-- The lookaheads for which a non-terminal has a rule, in order of columns.
def row (t : Table) : Symbol → List Symbol
  | .nonterminal i => (t.matrix.row i).map fun e => t.grammar.columnSymbol e.col.toNat
  | _ => []

end Table

inductive TableError where
  | ambiguous (grammar : Text) (conflicts : List Conflict)
  | leftRecursive (grammar : Text) (nonterminals : List Symbol) (conflicts : List Conflict)
deriving DecidableEq, Repr

-- Left recursion is refused under either policy, conflicts under the strict one only.
def Table.error? (t : Table) : Option TableError :=
  if t.isLeftRecursive then
    some (.leftRecursive t.grammar.name t.analysis.leftRecursive t.conflicts)
  else if t.hasConflicts && t.policy = .strict then
    some (.ambiguous t.grammar.name t.conflicts)
  else none

namespace Grammar

def conflictText (g : Grammar) (c : Conflict) : Text :=
  text "conflict at (" ++ g.nameOf (.nonterminal c.nonterminal) ++ text ", " ++
    g.nameOf c.lookahead ++ text "): rule " ++ Text.ofNat c.existing.serial ++ text " [" ++
    g.ruleText c.existing ++ text "] vs. rule " ++ Text.ofNat c.competing.serial ++ text " [" ++
    g.ruleText c.competing ++ text "]"

end Grammar

def TableError.message (g : Grammar) : TableError → Text
  | ambiguous name conflicts =>
    text "grammar " ++ name ++ text " is not LL(1): " ++ Text.ofNat conflicts.length ++
      text " conflict(s)" ++ conflicts.flatMap fun c => text "\n    " ++ g.conflictText c
  | leftRecursive name nonterminals conflicts =>
    text "grammar " ++ name ++ text " is left-recursive in " ++
      Text.bracketed (nonterminals.map g.nameOf) ++ text " (" ++ Text.ofNat conflicts.length ++
      text " conflict(s))"

end Lookahead
