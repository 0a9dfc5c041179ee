import Lookahead.Grammar.Basic
import Lookahead.Lexis.Munch
import Lookahead.Source
import Lookahead.Text.Digit
import Lookahead.Text.Letter
import Lookahead.Token.Conversion

/-!
A tokenizer made of patterns. Literals of the grammar come before all patterns. At every position
a machine takes a match of one of them, and what none of them matches is reported and left out.
-/

namespace Lookahead

-- A regular expression for a terminal, given by name. An empty name means that matches are
-- skipped.
structure Pattern where
  regex : Text
  terminal : Text
deriving DecidableEq, Repr

inductive LexerError where
  | noGrammar
  | undeclaredTerminal (pattern : Pattern) (grammar : Text)
  | malformed
deriving DecidableEq, Repr

-- What is wrong, as far as there is something to say about it.
def LexerError.message? : LexerError → Option Text
  | noGrammar => some (text "lexmachine adapter needs a grammar")
  | undeclaredTerminal p grammar =>
    some (text "pattern " ++ p.regex ++ text " for " ++ Quoted.quote p.terminal ++
      text " in grammar " ++ grammar ++ text ": undeclared symbol")
  | malformed => none

structure Lexer where
  rules : List LexerRule
  matcher : Matcher rules

namespace Lexer

-- A regular expression for a literal. Characters other than letters, digits and underscores
-- are escaped; of a character of several bytes, that concerns the first one.
def literalRegex (literal : Text) : Text :=
  (Utf8.characters literal).flatMap fun c =>
    let bytes := Utf8.encode c.code
    if isLetter c.code || isDigit c.code || c.code = 0x5F then bytes else 0x5C :: bytes

def literals (g : Grammar) : List LexerRule :=
  g.terminals.filterMap fun t =>
    (g.literal? t.name).map fun type => ⟨literalRegex t.name, some type⟩

def patternRule (g : Grammar) (p : Pattern) : Except LexerError LexerRule :=
  if p.terminal.isEmpty then .ok ⟨p.regex, none⟩
  else
    match g.symbol? p.terminal with
    | some (.terminal i) => .ok ⟨p.regex, some (g.typeOf (.terminal i))⟩
    | _ => .error (.undeclaredTerminal p g.name)

-- The lexer for the literals of a grammar and for patterns.
def buildOn (machine : Machine) (g : Option Grammar) (patterns : List Pattern) :
    Except LexerError Lexer :=
  match g with
  | none => .error .noGrammar
  | some g => do
    let rules := literals g ++ (← patterns.mapM (patternRule g))
    match machine rules with
    | some m => .ok ⟨rules, m⟩
    | none => .error .malformed

def build (g : Option Grammar) (patterns : List Pattern) : Except LexerError Lexer :=
  buildOn Automaton.machine g patterns

def munch (l : Lexer) (t : Text) : Munch := l.matcher.munch t

structure Scan where
  lexer : Lexer
  input : Text
  position : Nat
  rest : Text

def scan (l : Lexer) (input : Text) : Scan := ⟨l, input, 0, input⟩

namespace Scan

-- A token for a match at a position, with its value and what is wrong with it. There is no token
-- if the conversion of its lexeme crashes.
def tokenAt (position : Nat) (lexeme : Text) (type : TokenType) : Option Token × List Text :=
  let start := UInt64.ofNat position
  let token : Token := ⟨type, lexeme, ⟨start, UInt64.ofNat (position + lexeme.length)⟩, none⟩
  match convert type lexeme with
  | .value v => (some { token with value := some v }, [])
  | .absent => (some token, [])
  | .failed e => (some token, [Text.ofNat position ++ text ": " ++ e.message])
  | .crashed => (none, [])

-- The next token from a position on. Input that cannot be matched is reported and left out. The
-- last message comes first in the log.
def nextFrom (l : Lexer) (input : Text) (log : List Text) (position : Nat) (rest : Text) :
    Scanned × Scan :=
  match rest with
  | [] => (⟨some (.endAt (UInt64.ofNat input.length)), log.reverse⟩, ⟨l, input, position, []⟩)
  | b :: tail =>
    match l.munch (b :: tail) with
    | .stuck n =>
      nextFrom l input (l.matcher.report input position n :: log) (position + n)
        (tail.drop (n - 1))
    | .hit n none => nextFrom l input log (position + n) (tail.drop (n - 1))
    | .hit n (some type) =>
      let (token, messages) := tokenAt position ((b :: tail).take n) type
      (⟨token, log.reverse ++ messages⟩, ⟨l, input, position + n, tail.drop (n - 1)⟩)
termination_by rest.length
decreasing_by all_goals simp only [List.length_drop, List.length_cons]; omega

def next (s : Scan) : Scanned × Scan := nextFrom s.lexer s.input [] s.position s.rest

def takeAll (s : Scan) (extra : Nat) : List Scanned :=
  Scanned.takeFrom next (s.input.length + extra + 1) (extra + 1) s

end Scan

end Lexer

end Lookahead
