import Lookahead.Grammar.Basic

/-!
Syntax errors: what was found where something else was expected.
-/

namespace Lookahead

-- The two kinds of syntax errors, and codes that mean neither of them.
inductive ErrorCode where
  | unexpectedToken
  | noApplicableProduction
  | other (code : Int)
deriving DecidableEq, Repr

namespace ErrorCode

def ofCode (code : Int) : ErrorCode :=
  if code = 1 then unexpectedToken
  else if code = 2 then noApplicableProduction
  else other code

def name : ErrorCode → Text
  | unexpectedToken => text "UnexpectedToken"
  | noApplicableProduction => text "NoApplicableProduction"
  | other code => text "ErrorCode(" ++ Text.ofInt code ++ text ")"

end ErrorCode

-- `nonterminal` is the one without a rule, if the error is about that; `found` is missing if the
-- grammar does not know the type of the token.
structure SyntaxError where
  code : ErrorCode
  nonterminal : Option Symbol
  expected : List (Option Symbol)
  found : Option Symbol
  token : Option Token
  position : UInt64
deriving DecidableEq, Repr

namespace SyntaxError

def foundText (g : Grammar) (e : SyntaxError) : Text :=
  match e.found, e.token with
  | some s, _ => g.nameOf s
  | none, some t =>
    text "token " ++ Quoted.quote t.lexeme ++ text " (type " ++ Text.ofInt t.type ++ text ")"
  | none, none => []

def message (g : Grammar) (e : SyntaxError) : Text :=
  text "syntax error at " ++ Text.ofNat e.position.toNat ++ text ": " ++
    (if e.code = .noApplicableProduction then
      text "no rule for " ++ g.nameOf? e.nonterminal ++ text " with lookahead "
    else text "unexpected ") ++
    e.foundText g ++ text ", expected one of " ++ Text.bracketed (e.expected.map g.nameOf?)

-- A terminal on top of the stack that is not the lookahead.
def unexpected (expected : Symbol) (found : Option Symbol) (token : Token) : SyntaxError :=
  ⟨.unexpectedToken, none, [some expected], found, some token, token.span.start⟩

-- A non-terminal on top of the stack without a rule for the lookahead.
def noProduction (s : Symbol) (expected : List Symbol) (found : Option Symbol) (token : Token) :
    SyntaxError :=
  ⟨.noApplicableProduction, some s, expected.map some, found, some token, token.span.start⟩

end SyntaxError

end Lookahead
