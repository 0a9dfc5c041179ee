import Lookahead.Token

/-!
Matching texts against a list of rules. How the expressions of rules are written, and how their
matches are found, is left open: a machine is whatever makes a matcher of some rules.
-/

namespace Lookahead

-- A regular expression, and the type of the tokens it is for. Matches without a type are left out.
structure LexerRule where
  source : Text
  type : Option TokenType
deriving DecidableEq, Repr

-- What can be taken from the front of a text: a match of some length, or a stretch of input
-- that cannot be matched, up to and including the byte at which no rule could go on.
inductive Munch where
  | hit (length : Nat) (type : Option TokenType)
  | stuck (length : Nat)
deriving DecidableEq, Repr

-- Takes something from the front of a text, and reports stretches of an input that cannot be
-- matched. A byte at least is taken, if there is one, and matches are those of the rules.
structure Matcher (rules : List LexerRule) where
  munch : Text → Munch
  report : (input : Text) → (start length : Nat) → Text
  hit_bounds {t : Text} {n : Nat} {type : Option TokenType} (h : munch t = .hit n type) :
    0 < n ∧ n ≤ t.length
  hit_type {t : Text} {n : Nat} {type : Option TokenType} (h : munch t = .hit n type) :
    ∃ rule ∈ rules, rule.type = type
  stuck_bounds {t : Text} {n : Nat} (hne : t ≠ []) (h : munch t = .stuck n) :
    0 < n ∧ n ≤ t.length

-- There is no matcher for rules that are malformed.
abbrev Machine := (rules : List LexerRule) → Option (Matcher rules)

end Lookahead
