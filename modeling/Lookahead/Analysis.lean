import Lookahead.FixedPoint
import Lookahead.Grammar.Render
import Lookahead.IndexSet

/-!
Analysis of a grammar: which non-terminals derive the empty string, FIRST and FOLLOW sets, and
left corners. All of them are least fixed points. A pass goes over the rules in order, and every
rule already sees what the rules before it have added.

FIRST and FOLLOW sets hold table columns, left corners are indices of non-terminals. All lists
below are indexed by non-terminals.
-/

namespace Lookahead

structure Passes where
  nullable : Nat
  first : Nat
  follow : Nat
  corners : Nat
deriving DecidableEq, Repr

structure Analysis where
  grammar : Grammar
  nullable : List Bool
  first : List IndexSet
  follow : List IndexSet
  corners : List IndexSet
  passes : Passes
deriving DecidableEq

namespace Analysis

def isNullable (nullable : List Bool) : Symbol → Bool
  | .nonterminal i => nullable.getD i false
  | _ => false

def setOf (sets : List IndexSet) (i : Nat) : IndexSet := sets.getD i .empty

-- FIRST of a string of symbols, and whether the whole string is nullable. Symbols behind the
-- first one that is not nullable do not matter.
def firstOf (g : Grammar) (nullable : List Bool) (first : List IndexSet) :
    List Symbol → IndexSet × Bool
  | [] => (.empty, true)
  | .nonterminal i :: rest =>
    if nullable.getD i false then
      let (f, all) := firstOf g nullable first rest
      ((setOf first i).union f, all)
    else (setOf first i, false)
  | s :: _ => (IndexSet.empty.insert (g.column s), false)

-- A rule makes its left-hand side nullable if all symbols of its right-hand side are.
def nullableStep (nullable : List Bool) (r : Rule) : List Bool :=
  if r.rhs.all (isNullable nullable) then nullable.set r.lhs true else nullable

def nullablePass (g : Grammar) (nullable : List Bool) : List Bool :=
  g.rules.foldl nullableStep nullable

-- A rule adds FIRST of its right-hand side to FIRST of its left-hand side.
def firstStep (g : Grammar) (nullable : List Bool) (first : List IndexSet) (r : Rule) :
    List IndexSet :=
  first.modify r.lhs fun s => s.union (firstOf g nullable first r.rhs).1

def firstPass (g : Grammar) (nullable : List Bool) (first : List IndexSet) : List IndexSet :=
  g.rules.foldl (firstStep g nullable) first

-- A non-terminal is followed by FIRST of what stands behind it, and if that is nullable
-- also by what follows the left-hand side.
def followStep (g : Grammar) (nullable : List Bool) (first : List IndexSet) (lhs : Nat) :
    List Symbol → List IndexSet → List IndexSet
  | [], follow => follow
  | .nonterminal i :: rest, follow =>
    let (f, all) := firstOf g nullable first rest
    let follow := follow.modify i fun s => s.union f
    let follow := if all then follow.modify i fun s => s.union (setOf follow lhs) else follow
    followStep g nullable first lhs rest follow
  | _ :: rest, follow => followStep g nullable first lhs rest follow

def followPass (g : Grammar) (nullable : List Bool) (first follow : List IndexSet) :
    List IndexSet :=
  g.rules.foldl (fun follow r => followStep g nullable first r.lhs r.rhs follow) follow

-- A rule gives its left-hand side the non-terminals up to the first symbol that is not nullable,
-- together with their left corners.
def cornerStep (nullable : List Bool) (lhs : Nat) : List Symbol → List IndexSet → List IndexSet
  | .nonterminal i :: rest, corners =>
    let corners := corners.modify lhs fun s => s.insert i
    let corners := corners.modify lhs fun s => s.union (setOf corners i)
    if nullable.getD i false then cornerStep nullable lhs rest corners else corners
  | _, corners => corners

def cornerPass (g : Grammar) (nullable : List Bool) (corners : List IndexSet) : List IndexSet :=
  g.rules.foldl (fun corners r => cornerStep nullable r.lhs r.rhs corners) corners

end Analysis

-- Every pass but the last one adds a member to some set, so that the number of possible members
-- bounds the number of passes.
def Grammar.analyse (g : Grammar) : Analysis :=
  let n := g.nonterminals.length
  let empty : List IndexSet := List.replicate n .empty
  let (nullable, p₁) := fixedPoint (Analysis.nullablePass g) (n + 1) (List.replicate n false)
  let (first, p₂) := fixedPoint (Analysis.firstPass g nullable) (n * g.columnCount + 1) empty
  let atStart := empty.modify g.start fun s => s.insert (g.column .endOfInput)
  let (follow, p₃) :=
    fixedPoint (Analysis.followPass g nullable first) (n * g.columnCount + 1) atStart
  let (corners, p₄) := fixedPoint (Analysis.cornerPass g nullable) (n * n + 1) empty
  { grammar := g, nullable := nullable, first := first, follow := follow, corners := corners,
    passes := ⟨p₁, p₂, p₃, p₄⟩ }

namespace Analysis

def symbols (a : Analysis) (s : IndexSet) : List Symbol := s.members.map a.grammar.columnSymbol

def nullableSymbol (a : Analysis) (s : Symbol) : Bool := isNullable a.nullable s

def firstSymbols (a : Analysis) : Symbol → List Symbol
  | .nonterminal i => a.symbols (setOf a.first i)
  | s => [s]

-- The symbols that may follow a non-terminal, in order of columns. For other symbols there is
-- no such set.
def followSymbols? (a : Analysis) : Symbol → Option (List Symbol)
  | .nonterminal i => some (a.symbols (setOf a.follow i))
  | _ => none

def firstColumns (a : Analysis) (s : List Symbol) : IndexSet × Bool :=
  firstOf a.grammar a.nullable a.first s

def firstOfString (a : Analysis) (s : List Symbol) : List Symbol × Bool :=
  let (f, all) := a.firstColumns s
  (a.symbols f, all)

-- The symbols named by a string of names, up to the first one that is not nullable. A name that
-- is not declared spoils the string if it is reached.
def relevantSymbols? (a : Analysis) : List Text → Option (List Symbol)
  | [] => some []
  | name :: rest =>
    match a.grammar.symbol? name with
    | none => none
    | some s => if a.nullableSymbol s then (a.relevantSymbols? rest).map (s :: ·) else some [s]

def firstOfNames? (a : Analysis) (names : List Text) : Option (List Symbol × Bool) :=
  (a.relevantSymbols? names).map a.firstOfString

-- The non-terminals that are left corners of themselves, in order of registration.
def leftRecursive (a : Analysis) : List Symbol :=
  ((List.range a.grammar.nonterminals.length).filter fun i => (setOf a.corners i).contains i).map
    .nonterminal

end Analysis

end Lookahead
