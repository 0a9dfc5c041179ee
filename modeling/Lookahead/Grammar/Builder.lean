import Lookahead.Grammar.Basic

/-!
Declaring a grammar step by step. Symbols are registered under unique names, rules refer to
symbols by name and kind and are resolved when the grammar is built. Once a grammar has been
built, it does not change any more and further registrations are refused.

A rule is declared through a handle. A declaration is resolved as it stands when the grammar is
built, so that symbols appended after it was closed still belong to it.
-/

namespace Lookahead

inductive Kind where
  | terminal
  | nonterminal
deriving DecidableEq, Repr

def Kind.name : Kind → Text
  | terminal => text "terminal"
  | nonterminal => text "non-terminal"

def Kind.accepts : Kind → Symbol → Bool
  | terminal, s => s.isTerminal
  | nonterminal, s => s.isNonterminal

structure Reference where
  name : Text
  kind : Kind
deriving DecidableEq, Repr

structure Declaration where
  lhs : Text
  rhs : List Reference
deriving DecidableEq, Repr

inductive GrammarFault where
  | reservedName (name : Text)
  | redeclared (name : Text)
  | reservedType (name : Text)
  | typeTaken (name : Text) (type : TokenType) (owner : Text)
  | noStart
  | startUndeclared (name : Text)
  | lhsUndeclared (name : Text) (serial : Nat)
  | referenceUndeclared (name : Text) (serial : Nat) (kind : Kind)
  | alreadyBuilt (name : Text)
deriving DecidableEq, Repr

inductive GrammarErrorCode where
  | undeclaredSymbol
  | duplicateSymbol
  | noStartSymbol
  | grammarBuilt
deriving DecidableEq, Repr

def GrammarErrorCode.message : GrammarErrorCode → Text
  | undeclaredSymbol => text "undeclared symbol"
  | duplicateSymbol => text "duplicate symbol"
  | noStartSymbol => text "no start symbol"
  | grammarBuilt => text "grammar already built"

structure GrammarError where
  grammar : Text
  fault : GrammarFault
deriving DecidableEq, Repr

namespace GrammarFault

def code : GrammarFault → GrammarErrorCode
  | reservedName _ | redeclared _ | reservedType _ | typeTaken .. => .duplicateSymbol
  | noStart => .noStartSymbol
  | startUndeclared _ | lhsUndeclared .. | referenceUndeclared .. => .undeclaredSymbol
  | alreadyBuilt _ => .grammarBuilt

-- The name a fault is about; empty if there is none.
def symbol : GrammarFault → Text
  | reservedName name | redeclared name | reservedType name | typeTaken name .. => name
  | noStart => []
  | startUndeclared name | lhsUndeclared name _ | referenceUndeclared name .. => name
  | alreadyBuilt name => name

def detail : GrammarFault → Text
  | reservedName _ => text "name is reserved"
  | redeclared _ => text "already declared"
  | reservedType _ => text "token type is reserved for end of input"
  | typeTaken _ type owner =>
    text "token type " ++ Text.ofInt type ++ text " already bound to " ++ Quoted.quote owner
  | noStart => []
  | startUndeclared _ => text "start symbol must be a declared non-terminal"
  | lhsUndeclared _ serial =>
    text "left-hand side of rule " ++ Text.ofNat serial ++ text " is not a declared non-terminal"
  | referenceUndeclared _ serial kind =>
    text "referenced in rule " ++ Text.ofNat serial ++ text " as " ++ kind.name
  | alreadyBuilt _ => text "registration ignored"

end GrammarFault

def GrammarError.message (e : GrammarError) : Text :=
  let symbol := e.fault.symbol
  let detail := e.fault.detail
  text "grammar " ++ e.grammar ++ text ": " ++ e.fault.code.message ++
    (if symbol.isEmpty then [] else text " " ++ Quoted.quote symbol) ++
    (if detail.isEmpty then [] else text ": " ++ detail)

-- `declarations` are all rules begun so far, found by handle; `closed` lists the handles that
-- have been closed, in order. `resolved` are rules left over from attempts to build that failed.
structure Builder where
  name : Text
  terminals : List Terminal
  nonterminals : List Text
  start : Text
  declarations : List Declaration
  closed : List Nat
  resolved : List Rule
  failure : Option GrammarError
  built : Option Grammar
deriving DecidableEq, Repr

structure Handle where
  index : Nat
deriving DecidableEq, Repr

namespace Builder

def new (name : Text) : Builder :=
  { name := name, terminals := [], nonterminals := [], start := [], declarations := [],
    closed := [], resolved := [], failure := none, built := none }

def error (b : Builder) (fault : GrammarFault) : GrammarError := ⟨b.name, fault⟩

def symbol? (b : Builder) (name : Text) : Option Symbol :=
  symbolNamed? b.terminals b.nonterminals name

-- Refuses a registration. The first refusal will also be the outcome of building the grammar.
def refuse (b : Builder) (fault : GrammarFault) : Builder × Option GrammarError :=
  let e := b.error fault
  ({ b with failure := b.failure <|> some e }, some e)

def nameFault? (b : Builder) (name : Text) : Option GrammarFault :=
  if name.isEmpty || name = epsilonName || name = endOfInputName then some (.reservedName name)
  else if (b.symbol? name).isSome then some (.redeclared name)
  else none

def typeFault? (b : Builder) (name : Text) (type : TokenType) : Option GrammarFault :=
  if type = TokenType.endOfInput then some (.reservedType name)
  else (b.terminals.find? (·.type = type)).map fun t => .typeTaken name type t.name

def terminal (b : Builder) (name : Text) (type : TokenType) : Builder × Option GrammarError :=
  if b.built.isSome then (b, some (b.error (.alreadyBuilt name)))
  else
    match b.nameFault? name <|> b.typeFault? name type with
    | some fault => b.refuse fault
    | none => ({ b with terminals := b.terminals ++ [⟨name, type⟩] }, none)

def nonterminal (b : Builder) (name : Text) : Builder × Option GrammarError :=
  if b.built.isSome then (b, some (b.error (.alreadyBuilt name)))
  else
    match b.nameFault? name with
    | some fault => b.refuse fault
    | none => ({ b with nonterminals := b.nonterminals ++ [name] }, none)

def setStart (b : Builder) (name : Text) : Builder := { b with start := name }

def beginRule (b : Builder) (lhs : Text) : Builder × Handle :=
  ({ b with declarations := b.declarations ++ [⟨lhs, []⟩] }, ⟨b.declarations.length⟩)

def append (b : Builder) (h : Handle) (ref : Reference) : Builder :=
  { b with declarations := b.declarations.modify h.index fun d => { d with rhs := d.rhs ++ [ref] } }

-- Adds a rule to the grammar and tells its number, or nothing if the grammar is already built.
def close (b : Builder) (h : Handle) : Builder × Option Nat :=
  if b.built.isSome then (b, none)
  else ({ b with closed := b.closed ++ [h.index] }, some b.closed.length)

-- The left-hand side of a rule that was closed as an empty one, though it is not.
structure NotEmpty where
  lhs : Text
deriving DecidableEq, Repr

def NotEmpty.message (e : NotEmpty) : Text :=
  text "ll: epsilon rule for " ++ e.lhs ++ text " with non-empty right-hand side"

def closeEmpty (b : Builder) (h : Handle) : Except NotEmpty (Builder × Option Nat) :=
  match b.declarations[h.index]? with
  | some d => if d.rhs.isEmpty then .ok (b.close h) else .error ⟨d.lhs⟩
  | none => .ok (b.close h)

-- Declares a whole rule. Without right-hand side it is an empty rule.
def rule (b : Builder) (lhs : Text) (rhs : List Reference) : Builder × Option Nat :=
  let (b, h) := b.beginRule lhs
  (rhs.foldl (fun b ref => b.append h ref) b).close h

-- The declarations of the rules closed so far, as they stand now.
def closedDeclarations (b : Builder) : List Declaration :=
  b.closed.filterMap fun i => b.declarations[i]?

def resolveReference (b : Builder) (serial : Nat) (ref : Reference) : Except GrammarFault Symbol :=
  match b.symbol? ref.name with
  | some s =>
    if ref.kind.accepts s then .ok s
    else .error (.referenceUndeclared ref.name serial ref.kind)
  | none => .error (.referenceUndeclared ref.name serial ref.kind)

def resolve (b : Builder) (serial : Nat) (d : Declaration) : Except GrammarFault Rule :=
  match b.symbol? d.lhs with
  | some (.nonterminal lhs) => do
    let rhs ← d.rhs.mapM (b.resolveReference serial)
    return ⟨serial, lhs, rhs⟩
  | _ => .error (.lhsUndeclared d.lhs serial)

-- Resolves declarations up to the first one with a fault.
def resolveFrom (b : Builder) : (serial : Nat) → List Declaration → List Rule × Option GrammarFault
  | _, [] => ([], none)
  | serial, d :: rest =>
    match b.resolve serial d with
    | .error fault => ([], some fault)
    | .ok r =>
      let (rules, fault) := b.resolveFrom (serial + 1) rest
      (r :: rules, fault)

def resolveStart (b : Builder) : Except GrammarFault Nat :=
  if b.start.isEmpty then .error .noStart
  else
    match b.symbol? b.start with
    | some (.nonterminal start) => .ok start
    | _ => .error (.startUndeclared b.start)

-- Validates and builds the grammar. When an attempt fails, the rules resolved so far are kept and
-- the next attempt puts its rules behind them. A grammar that is already built is handed out
-- again.
def build (b : Builder) : Builder × Except GrammarError Grammar :=
  match b.built, b.failure with
  | some g, _ => (b, .ok g)
  | none, some e => (b, .error e)
  | none, none =>
    match b.resolveStart with
    | .error fault => (b, .error (b.error fault))
    | .ok start =>
      let (rules, fault) := b.resolveFrom 0 b.closedDeclarations
      let b := { b with resolved := b.resolved ++ rules }
      match fault with
      | some fault => (b, .error (b.error fault))
      | none =>
        let g : Grammar :=
          { name := b.name, terminals := b.terminals, nonterminals := b.nonterminals,
            rules := b.resolved, declared := rules, start := start }
        ({ b with built := some g }, .ok g)

end Builder

structure GrammarSource where
  name : Text
  terminals : List Terminal
  nonterminals : List Text
  start : Text
  rules : List Declaration
deriving DecidableEq, Repr

-- Declares everything in order and builds the grammar. Faults of single registrations show up in
-- the outcome only, which is the first one.
def GrammarSource.build (s : GrammarSource) : Except GrammarError Grammar :=
  let b := Builder.new s.name
  let b := s.terminals.foldl (fun b t => (b.terminal t.name t.type).1) b
  let b := s.nonterminals.foldl (fun b name => (b.nonterminal name).1) b
  let b := b.setStart s.start
  let b := s.rules.foldl (fun b d => (b.rule d.lhs d.rhs).1) b
  b.build.2

end Lookahead
