import Lookahead.Grammar.Basic

/-!
Parse trees. A leaf stands for an input token, a branch for the expansion of a rule. Trees
put together by hand may have gaps: missing children, leaves without symbol or token, and branches
without a rule.
-/

namespace Lookahead

inductive Tree where
  | missing
  | leaf (symbol : Option Symbol) (token : Option Token)
  | branch (rule : Option Rule) (children : List Tree)
deriving Repr

instance : Inhabited Tree := ⟨.missing⟩

namespace Tree

def symbol? : Tree → Option Symbol
  | missing => none
  | leaf s _ => s
  | branch r _ => r.map fun r => .nonterminal r.lhs

def rule? : Tree → Option Rule
  | branch r _ => r
  | _ => none

def children : Tree → List Tree
  | branch _ children => children
  | _ => []

def isMissing : Tree → Bool
  | missing => true
  | _ => false

-- Whether a node stands for an input token or the end of input.
def isTerminal (t : Tree) : Bool :=
  match t.symbol? with
  | some s => !s.isNonterminal
  | none => false

-- A branch for a rule. Children fill the places of the right-hand side from the left; places
-- without a child are missing, children without a place come last.
def ofRule (r : Rule) (children : List Tree) : Tree :=
  branch (some r) (children ++ List.replicate (r.rhs.length - children.length) missing)

def child? (g : Grammar) (name : Text) (t : Tree) : Option Tree :=
  t.children.find? fun c =>
    match c.symbol? with
    | some s => g.nameOf s = name
    | none => false

def descend (g : Grammar) : List Text → Tree → Tree
  | [], t => t
  | name :: path, t => descend g path ((t.child? g name).getD missing)

def leafSpan (s : Option Symbol) (token : Option Token) : Span :=
  if (leaf s token).isTerminal then (token.map (·.span)).getD .null else .null

mutual

-- The input a node covers, or the null span if it covers nothing.
def span : Tree → Span
  | missing => .null
  | leaf s token => leafSpan s token
  | branch _ children => spanFrom .null children

def spanFrom (s : Span) : List Tree → Span
  | [] => s
  | t :: rest => spanFrom (s.extend (span t)) rest

end

mutual

-- The leaves for input tokens from left to right, each with its symbol.
def leaves : Tree → List (Symbol × Option Token)
  | missing => []
  | leaf s token =>
    match s with
    | some s => if s.isNonterminal then [] else [(s, token)]
    | none => []
  | branch _ children => leavesOfAll children

def leavesOfAll : List Tree → List (Symbol × Option Token)
  | [] => []
  | t :: rest => leaves t ++ leavesOfAll rest

end

def tokens (t : Tree) : List (Option Token) := t.leaves.map (·.2)

mutual

-- All nodes, every one before its children and with missing ones.
def preorder : Tree → List Tree
  | missing => [missing]
  | leaf s token => [leaf s token]
  | branch r children => branch r children :: preorderOfAll children

def preorderOfAll : List Tree → List Tree
  | [] => []
  | t :: rest => preorder t ++ preorderOfAll rest

end

end Tree

end Lookahead
