import Lookahead.Token

/-!
Context-free grammars. Symbols are told apart by kind and index; their names and token
types are kept by the grammar they belong to.
-/

namespace Lookahead

inductive Symbol where
  | terminal (index : Nat)
  | nonterminal (index : Nat)
  | endOfInput
deriving DecidableEq, Repr

namespace Symbol

def isNonterminal : Symbol → Bool
  | nonterminal _ => true
  | _ => false

def isTerminal : Symbol → Bool
  | terminal _ => true
  | _ => false

def isEndOfInput : Symbol → Bool
  | endOfInput => true
  | _ => false

end Symbol

-- Names that no terminal or non-terminal may have.
def epsilonName : Text := text "ε"
def endOfInputName : Text := text "#eof"

structure Terminal where
  name : Text
  type : TokenType
deriving DecidableEq, Repr

-- A rule with its number, the index of the non-terminal on its left-hand side, and the symbols
-- of its right-hand side.
structure Rule where
  serial : Nat
  lhs : Nat
  rhs : List Symbol
deriving DecidableEq, Repr

def Rule.isEpsilon (r : Rule) : Bool := r.rhs.isEmpty

-- `declared` are the rules of the declarations, in order; `rules` holds the rules that tables
-- find by number. The two are the same unless the grammar was completed after a failed attempt.
structure Grammar where
  name : Text
  terminals : List Terminal
  nonterminals : List Text
  rules : List Rule
  declared : List Rule
  start : Nat
deriving DecidableEq, Repr

def symbolNamed? (terminals : List Terminal) (nonterminals : List Text) (name : Text) :
    Option Symbol :=
  match terminals.findIdx? (·.name = name) with
  | some i => some (.terminal i)
  | none => (nonterminals.findIdx? (· = name)).map .nonterminal

namespace Grammar

-- Tables have one column per terminal and a last one for the end of input.
def columnCount (g : Grammar) : Nat := g.terminals.length + 1

def column (g : Grammar) : Symbol → Nat
  | .terminal i => i
  | .nonterminal i => i
  | .endOfInput => g.terminals.length

def columnSymbol (g : Grammar) (column : Nat) : Symbol :=
  if column = g.terminals.length then .endOfInput else .terminal column

-- All lookahead symbols, in order of columns.
def lookaheads (g : Grammar) : List Symbol :=
  (List.range g.terminals.length).map .terminal ++ [.endOfInput]

def nameOf (g : Grammar) : Symbol → Text
  | .terminal i => (g.terminals[i]?.map (·.name)).getD []
  | .nonterminal i => g.nonterminals[i]?.getD []
  | .endOfInput => endOfInputName

def nameOf? (g : Grammar) : Option Symbol → Text
  | some s => g.nameOf s
  | none => text "<nil>"

def typeOf (g : Grammar) : Symbol → TokenType
  | .terminal i => (g.terminals[i]?.map (·.type)).getD 0
  | .nonterminal _ => 0
  | .endOfInput => TokenType.endOfInput

def symbol? (g : Grammar) (name : Text) : Option Symbol :=
  if name = endOfInputName then some .endOfInput
  else symbolNamed? g.terminals g.nonterminals name

-- The lookahead symbol a token type is bound to.
def terminal? (g : Grammar) (type : TokenType) : Option Symbol :=
  if type = TokenType.endOfInput then some .endOfInput
  else (g.terminals.findIdx? (·.type = type)).map .terminal

-- The token type of a literal, that is, of a terminal that stands for exactly one lexeme:
-- its own name. Terminals bound to the negative types of general categories are no literals.
def literal? (g : Grammar) (lexeme : Text) : Option TokenType :=
  match g.terminals.find? (·.name = lexeme) with
  | some t => if t.type < 0 then none else some t.type
  | none => none

def rule? (g : Grammar) (number : Int) : Option Rule :=
  match number with
  | .ofNat i => g.rules[i]?
  | .negSucc _ => none

def rulesFor (g : Grammar) : Symbol → List Rule
  | .nonterminal i => g.declared.filter (·.lhs = i)
  | _ => []

end Grammar

end Lookahead
