import Lookahead.Lexis.Matcher

/-!
What is expected of matchers, whatever machine has made them. They take a longest match, for the
first rule that has it. Without a match, they are stuck at the byte with which a text does not
begin a match any more.
-/

namespace Lookahead

-- Which texts an expression matches.
abbrev Meaning := (source : Text) → Text → Prop

namespace Meaning

-- A match of one of the expressions starts with a text.
def Begins (means : Meaning) (sources : List Text) (t : Text) : Prop :=
  ∃ source ∈ sources, ∃ u, means source (t ++ u)

-- The first `n` bytes of a text are matched, those up to any later one are not, and the type is
-- that of the first rule that matches them.
structure IsLongestMatch (means : Meaning) (rules : List LexerRule) (t : Text) (n : Nat)
    (type : Option TokenType) : Prop where
  first : ∃ (place : Nat) (rule : LexerRule), rules[place]? = some rule ∧ rule.type = type ∧
    means rule.source (t.take n) ∧ ∀ i < place, ∀ earlier : LexerRule,
      rules[i]? = some earlier → ¬means earlier.source (t.take n)
  longest : ∀ rule ∈ rules, ∀ i, n < i → i ≤ t.length → ¬means rule.source (t.take i)

-- There is no match at the front of a text. It begins one up to its end, or up to the last one of
-- `n` bytes.
structure IsStuck (means : Meaning) (sources : List Text) (t : Text) (n : Nat) : Prop where
  unmatched : ∀ source ∈ sources, ∀ i, 0 < i → i ≤ t.length → ¬means source (t.take i)
  stuck : (n = t.length ∧ means.Begins sources t) ∨
    (means.Begins sources (t.take (n - 1)) ∧ ¬means.Begins sources (t.take n))

theorem Begins.of_prefix {means : Meaning} {sources : List Text} {t u : Text}
    (h : means.Begins sources u) (hfront : t <+: u) : means.Begins sources t := by
  obtain ⟨source, hsource, v, hmatches⟩ := h
  obtain ⟨w, rfl⟩ := hfront
  exact ⟨source, hsource, w ++ v, by rwa [← List.append_assoc]⟩

end Meaning

structure Matcher.IsLongest {rules : List LexerRule} (means : Meaning) (m : Matcher rules) :
    Prop where
  hit {t : Text} {n : Nat} {type : Option TokenType} (h : m.munch t = .hit n type) :
    means.IsLongestMatch rules t n type
  stuck {t : Text} {n : Nat} (hne : t ≠ []) (h : m.munch t = .stuck n) :
    means.IsStuck (rules.map LexerRule.source) t n

end Lookahead
