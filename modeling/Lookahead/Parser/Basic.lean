import Lookahead.Parser.SyntaxError
import Lookahead.Source
import Lookahead.Table.Basic
import Lookahead.Tree.Basic

/-!
The predictive parser. It keeps a stack of goals and one token of lookahead. A terminal on top
of the stack has to be the lookahead, a non-terminal is replaced by the right-hand side of the
rule the table has for it and the lookahead. Behind the symbols of a right-hand side there is a
goal that puts the trees built for them together.
-/

namespace Lookahead

-- What a parser needs to know about its surroundings. The parse may be cancelled before any pull;
-- with `haltWhenStuck` a source that delivers nothing brings everything to a halt.
structure Input where
  source : Source
  isCancelled : (pulls : Nat) → Bool
  haltWhenStuck : Bool

def Input.ofSource (source : Source) : Input := ⟨source, fun _ => false, false⟩

inductive ParseFailure where
  | notInitialized
  | leftRecursive (grammar : Text)
  | rejected (error : SyntaxError)
  | cancelled
  | stuck
deriving DecidableEq, Repr

namespace ParseFailure

def message (g : Grammar) : ParseFailure → Text
  | notInitialized => text "LL(1)-parser not initialized"
  | leftRecursive name =>
    text "cannot parse with table for " ++ name ++ text ": grammar is left-recursive"
  | rejected e => e.message g
  | cancelled => text "context canceled"
  | stuck => text "tokenizer returned no token: LL(1)-parser is stuck"

end ParseFailure

inductive Breakdown where
  | sourceCrashed
  | tableFault (fault : Table.Fault)
  | halted
  | emptyStack
  | missingSlot
deriving DecidableEq, Repr

def Breakdown.haltMessage : Text :=
  Text.join (text "\n")
    [text "LL(1)-parser is stuck.",
     text "",
     text "Configuration flag panic-on-parser-stuck is set to true. It is aimed at helping",
     text "to debug a parser and do a post-mortem of why it got stuck. However, if this is",
     text "a production environment and you did not expect this to panic, please unset",
     text "panic-on-parser-stuck to its default (false).",
     text "",
     text "tokenizer returned nil instead of a token"]

inductive Outcome where
  | accepted (tree : Tree)
  | failed (failure : ParseFailure)
  | broken (breakdown : Breakdown)
deriving Repr

structure Report where
  outcome : Outcome
  pulls : Nat
deriving Repr

-- Pulls a token, unless the parse has been cancelled. Without a token, the parse ends.
def Input.pull (input : Input) (pulls : Nat) : Except Report Token :=
  if input.isCancelled pulls then .error ⟨.failed .cancelled, pulls⟩
  else
    match input.source pulls with
    | .token t => .ok t
    | .nothing =>
      if input.haltWhenStuck then .error ⟨.broken .halted, pulls + 1⟩
      else .error ⟨.failed .stuck, pulls + 1⟩
    | .crash => .error ⟨.broken .sourceCrashed, pulls + 1⟩

namespace Parser

-- What to do about the symbol on top of the stack.
inductive Choice where
  | accept
  | shift
  | expand (r : Rule)
  | reject (error : SyntaxError)
  | breakDown (fault : Table.Fault)
deriving DecidableEq, Repr

def choice (t : Table) (token : Token) (s : Symbol) : Choice :=
  let lookahead := t.grammar.terminal? token.type
  match s with
  | .endOfInput =>
    if lookahead = some .endOfInput then .accept
    else .reject (.unexpected .endOfInput lookahead token)
  | .terminal i =>
    if lookahead = some (.terminal i) then .shift
    else .reject (.unexpected (.terminal i) lookahead token)
  | .nonterminal i =>
    match lookahead with
    | none => .reject (.noProduction (.nonterminal i) (t.row (.nonterminal i)) none token)
    | some la =>
      match t.lookup (.nonterminal i) la with
      | .error fault => .breakDown fault
      | .ok none => .reject (.noProduction (.nonterminal i) (t.row (.nonterminal i)) (some la) token)
      | .ok (some r) => .expand r

-- What becomes of a parse with a step: it goes on in another state, or it has ended.
inductive Progress (σ : Type) where
  | next (state : σ)
  | done (report : Report)
deriving Repr

-- Runs at most `fuel` steps. There is no report if the parse has not ended by then.
def run {σ : Type} (step : σ → Progress σ) : (fuel : Nat) → Progress σ → Option Report
  | _, .done report => some report
  | 0, .next _ => none
  | fuel + 1, .next s => run step fuel (step s)

-- A parser without a table or without input is not initialized, and a left-recursive table is
-- refused.
def guarded (t : Option Table) (input : Option Input) (parse : Table → Input → Option Report) :
    Option Report :=
  match t, input with
  | some t, some input =>
    if t.isLeftRecursive then some ⟨.failed (.leftRecursive t.grammar.name), 0⟩ else parse t input
  | _, _ => some ⟨.failed .notInitialized, 0⟩

inductive Goal where
  | symbol (s : Symbol)
  | close (r : Rule)
deriving DecidableEq, Repr

-- `built` are the trees that still have to be put together, the last one first.
structure State where
  goals : List Goal
  built : List Tree
  token : Token
  pulls : Nat
deriving Repr

-- Goes on behind a pull with `goals` and `built`.
def pull (input : Input) (pulls : Nat) (goals : List Goal) (built : List Tree) : Progress State :=
  match input.pull pulls with
  | .ok token => .next ⟨goals, built, token, pulls + 1⟩
  | .error report => .done report

def reduce (r : Rule) (built : List Tree) : List Tree :=
  .branch (some r) (built.take r.rhs.length).reverse :: built.drop r.rhs.length

def step (t : Table) (input : Input) (s : State) : Progress State :=
  match s.goals with
  | [] => .done ⟨.broken .emptyStack, s.pulls⟩
  | .close r :: goals => .next { s with goals := goals, built := reduce r s.built }
  | .symbol x :: goals =>
    match choice t s.token x with
    | .accept => .done ⟨.accepted (s.built.headD .missing), s.pulls⟩
    | .shift => pull input s.pulls goals (.leaf (some x) (some s.token) :: s.built)
    | .expand r => .next { s with goals := r.rhs.map .symbol ++ .close r :: goals }
    | .reject e => .done ⟨.failed (.rejected e), s.pulls⟩
    | .breakDown fault => .done ⟨.broken (.tableFault fault), s.pulls⟩

-- The first pull, with the start symbol and the end of input on the stack.
def begin (t : Table) (input : Input) : Progress State :=
  pull input 0 [.symbol (.nonterminal t.grammar.start), .symbol .endOfInput] []

-- Parses with at most `fuel` steps.
def parseWithin (fuel : Nat) (t : Option Table) (input : Option Input) : Option Report :=
  guarded t input fun t input => run (step t input) fuel (begin t input)

-- A bound on the steps for an input of so many tokens. Without left recursion, a chain of
-- expansions that starts with one non-terminal under one lookahead does not visit a non-terminal
-- twice, so that the tree of an empty derivation is not higher than the number of non-terminals.
def stepBound (g : Grammar) (tokens : Nat) : Nat :=
  let n := g.nonterminals.length
  let k := (g.rules.map (·.rhs.length)).foldl max 0
  4 * (tokens + 2) * (n + 2) * Nat.pow (k + 2) (n + 2)

def parse (t : Option Table) (input : Option Input) (tokens : Nat) : Option Report :=
  let fuel := match t with
    | some t => stepBound t.grammar tokens
    | none => 0
  parseWithin fuel t input

end Parser

end Lookahead
