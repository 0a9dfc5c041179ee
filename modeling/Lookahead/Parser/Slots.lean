import Lookahead.Parser.Basic

/-!
The predictive parser with the tree that it is building. Nodes are kept in the order in which they
are made, each at a number of its own. A branch is made with an empty slot for every symbol of its
rule, and what is on the stack knows the slot that the node for it will be put into.
-/

namespace Lookahead

namespace SlotParser

open Lookahead.Parser (Progress Choice choice)

-- A slot has the number of a node, unless it is empty. Without a rule there is only the placeholder
-- that the tree hangs on.
inductive Node where
  | leaf (symbol : Symbol) (token : Token)
  | branch (rule : Option Rule) (slots : List (Option Nat))
deriving DecidableEq, Repr

-- A symbol on the stack, with the node and the slot that it is for. There is none for the end of
-- input.
structure Item where
  symbol : Symbol
  parent : Option Nat
  slot : Nat
deriving DecidableEq, Repr

structure State where
  nodes : List Node
  stack : List Item
  token : Token
  pulls : Nat
deriving Repr

-- Adds a node and puts it into the slot that an item is for.
def fill? (nodes : List Node) (item : Item) (node : Node) : Option (List Node) := do
  let parent ← item.parent
  match nodes[parent]? with
  | some (.branch rule slots) =>
    if item.slot < slots.length then
      some (nodes.set parent (.branch rule (slots.set item.slot (some nodes.length))) ++ [node])
    else none
  | _ => none

-- Items for symbols that belong into the slots of a node from some slot on.
def items (parent slot : Nat) (symbols : List Symbol) : List Item :=
  (symbols.zipIdx slot).map fun (s, slot) => ⟨s, some parent, slot⟩

def emptyBranch (r : Rule) : Node := .branch (some r) (List.replicate r.rhs.length none)

-- The tree below a slot, down to some depth.
def treeAt (nodes : List Node) : (depth : Nat) → (slot : Option Nat) → Tree
  | 0, _ => .missing
  | _, none => .missing
  | depth + 1, some i =>
    match nodes[i]? with
    | some (.leaf s token) => .leaf (some s) (some token)
    | some (.branch r slots) => .branch r (slots.map (treeAt nodes depth))
    | none => .missing

-- What hangs on the placeholder. No way down the tree can be longer than there are nodes.
def result (nodes : List Node) : Tree :=
  match nodes[(0 : Nat)]? with
  | some (.branch _ (slot :: _)) => treeAt nodes nodes.length slot
  | _ => .missing

def pull (input : Input) (pulls : Nat) (nodes : List Node) (stack : List Item) : Progress State :=
  match input.pull pulls with
  | .ok token => .next ⟨nodes, stack, token, pulls + 1⟩
  | .error report => .done report

def step (t : Table) (input : Input) (s : State) : Progress State :=
  match s.stack with
  | [] => .done ⟨.broken .emptyStack, s.pulls⟩
  | item :: stack =>
    match choice t s.token item.symbol with
    | .accept => .done ⟨.accepted (result s.nodes), s.pulls⟩
    | .shift =>
      match fill? s.nodes item (.leaf item.symbol s.token) with
      | some nodes => pull input s.pulls nodes stack
      | none => .done ⟨.broken .missingSlot, s.pulls⟩
    | .expand r =>
      match fill? s.nodes item (emptyBranch r) with
      | some nodes =>
        .next { s with nodes := nodes, stack := items s.nodes.length 0 r.rhs ++ stack }
      | none => .done ⟨.broken .missingSlot, s.pulls⟩
    | .reject e => .done ⟨.failed (.rejected e), s.pulls⟩
    | .breakDown fault => .done ⟨.broken (.tableFault fault), s.pulls⟩

-- The first pull, with a placeholder that has a slot for the start symbol.
def begin (t : Table) (input : Input) : Progress State :=
  pull input 0 [.branch none [none]]
    (items 0 0 [.nonterminal t.grammar.start] ++ [⟨.endOfInput, none, 0⟩])

def parseWithin (fuel : Nat) (t : Option Table) (input : Option Input) : Option Report :=
  Parser.guarded t input fun t input => Parser.run (step t input) fuel (begin t input)

end SlotParser

end Lookahead
