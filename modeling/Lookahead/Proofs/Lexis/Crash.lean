import Lookahead.Proofs.Lexis.Advance
import Lookahead.Proofs.Lexis.Resynchronisation

/-!
What crashes a conversion, and with it a call of a lexer: a character literal with nothing between
its quotes, of whatever kind they are. The types of tokens are chosen by the patterns, so that a
lexer without patterns for characters is safe.
-/

namespace Lookahead

namespace Conversion

variable {type : TokenType} {lexeme : Text}

-- There is a first character in any text but the empty one.
theorem ofCharacter_crashed_iff :
    Conversion.ofCharacter lexeme = .crashed ↔ Quoted.IsEmptyQuotation lexeme := by
  rw [← Quoted.unquote_eq_nil_iff]
  refine ⟨crashed_of_ofCharacter, fun h => ?_⟩
  rw [Conversion.ofCharacter, h]
  rfl

theorem crashed_iff : convert type lexeme = .crashed ↔
    type = TokenType.character ∧ Quoted.IsEmptyQuotation lexeme := by
  constructor
  · intro h
    obtain ⟨htype, hempty⟩ := crashed_cases h
    exact ⟨htype, Quoted.unquote_eq_nil_iff.mp hempty⟩
  · rintro ⟨rfl, hempty⟩
    exact ofCharacter_crashed_iff.mpr hempty

end Conversion

namespace Lexer

variable {l : Lexer} {input : Text} {stop position : Nat}

-- A match of a pattern for characters that has no character.
def CrashesAt (l : Lexer) (input : Text) (stop : Nat) : Prop :=
  ∃ n, l.munch (input.drop stop) = .hit n (some TokenType.character) ∧
    Quoted.IsEmptyQuotation ((input.drop stop).take n)

theorem tokenAt_eq_none_iff {type : TokenType} {lexeme : Text} :
    (Scan.tokenAt position lexeme type).1 = none ↔ convert type lexeme = .crashed := by
  unfold Scan.tokenAt
  cases convert type lexeme <;> simp

theorem Ends.token_eq_none_iff {token : Option Token} {messages : List Text} {s : Scan}
    (h : Ends l input stop token messages s) : token = none ↔ CrashesAt l input stop := by
  cases h with
  | exhausted hstop =>
      refine ⟨nofun, fun ⟨n, hmunch, _⟩ => ?_⟩
      rw [hstop, List.drop_length] at hmunch
      obtain ⟨hpos, hle⟩ := l.matcher.hit_bounds hmunch
      exact absurd hle (Nat.not_le.mpr hpos)
  | @token n type _ hmunch =>
      rw [tokenAt_eq_none_iff, Conversion.crashed_iff]
      constructor
      · rintro ⟨rfl, hempty⟩
        exact ⟨n, hmunch, hempty⟩
      · rintro ⟨m, hmunch', hempty⟩
        rw [hmunch] at hmunch'
        cases hmunch'
        exact ⟨rfl, hempty⟩

theorem CrashesAt.exists_rule (h : CrashesAt l input stop) :
    ∃ rule ∈ l.rules, rule.type = some TokenType.character := by
  obtain ⟨n, hmunch, -⟩ := h
  exact l.matcher.hit_type hmunch

-- Conversions crash on empty quotations that are taken for characters, and on nothing else. A call
-- of a lexer, in whatever state of a scan, crashes if it stops at a match of that kind, and only
-- then. There is none if no pattern is for characters.
theorem crash_exact (type : TokenType) (lexeme : Text) (l : Lexer) (input : Text) :
    (convert type lexeme = .crashed ↔
      type = TokenType.character ∧ Quoted.IsEmptyQuotation lexeme) ∧
    ∀ s, Reached l input s →
      (∃ stretches stop messages, Passes l input s.position stretches stop ∧
        Ends l input stop s.next.1.token messages s.next.2 ∧
        (s.next.1.token = none ↔ CrashesAt l input stop)) ∧
      ((∀ rule ∈ l.rules, rule.type ≠ some TokenType.character) → s.next.1.token ≠ none) := by
  refine ⟨Conversion.crashed_iff, fun s hs => ?_⟩
  obtain ⟨stretches, stop, messages, hpasses, hends, -⟩ := hs.isAt.next_spec
  refine ⟨⟨stretches, stop, messages, hpasses, hends, hends.token_eq_none_iff⟩, ?_⟩
  intro hrules hnone
  obtain ⟨rule, hrule, htype⟩ := (hends.token_eq_none_iff.mp hnone).exists_rule
  exact hrules rule hrule htype

-- A grammar with a terminal for characters, and a pattern that takes two quotes for one.
def oneCharacter : Grammar :=
  { name := text "G"
    terminals := [⟨text "c", TokenType.character⟩]
    nonterminals := [text "S"]
    rules := [⟨0, 0, [.terminal 0]⟩]
    declared := [⟨0, 0, [.terminal 0]⟩]
    start := 0 }

def twoQuotes : Pattern := ⟨text "\"\"", text "c"⟩

def twoQuotesRules : List LexerRule := [⟨text "\"\"", some TokenType.character⟩]

def twoQuotesLexer : Lexer :=
  ⟨twoQuotesRules, (Automaton.ofRegexes
    [.cat (.bytes (.single 0x22)) (.bytes (.single 0x22))]).matcher twoQuotesRules⟩

theorem build_twoQuotes : build (some oneCharacter) [twoQuotes] = .ok twoQuotesLexer := by rfl

theorem crash_exact_twoQuotes :
    Reached twoQuotesLexer (text "\"\"") (twoQuotesLexer.scan (text "\"\"")) ∧
    convert TokenType.character (text "\"\"") = .crashed ∧
    convert TokenType.string (text "\"\"") ≠ .crashed ∧
    ∃ stretches stop messages, Passes twoQuotesLexer (text "\"\"") 0 stretches stop ∧
      Ends twoQuotesLexer (text "\"\"") stop
        (twoQuotesLexer.scan (text "\"\"")).next.1.token messages
        (twoQuotesLexer.scan (text "\"\"")).next.2 ∧
      ((twoQuotesLexer.scan (text "\"\"")).next.1.token = none ↔
        CrashesAt twoQuotesLexer (text "\"\"") stop) := by
  have hcharacter := crash_exact TokenType.character (text "\"\"") twoQuotesLexer (text "\"\"")
  have hstring := crash_exact TokenType.string (text "\"\"") twoQuotesLexer (text "\"\"")
  refine ⟨.start, hcharacter.1.mpr ⟨rfl, .double⟩, fun h => ?_, (hcharacter.2 _ .start).1⟩
  exact absurd (hstring.1.mp h).1 (by decide)

-- Two quotes crash the conversion to a character, and the lexer that takes them for one.
set_option maxRecDepth 2000 in
theorem crash_on_twoQuotes : convert TokenType.character (text "\"\"") = .crashed ∧
    ∃ l, build (some oneCharacter) [twoQuotes] = .ok l ∧
      (l.scan (text "\"\"")).next.1.token = none := by
  have hmunch : twoQuotesLexer.munch [0x22, 0x22] = .hit 2 (some TokenType.character) := by
    decide +kernel
  refine ⟨by decide, _, build_twoQuotes, ?_⟩
  show (Scan.nextFrom twoQuotesLexer (text "\"\"") [] 0 [0x22, 0x22]).1.token = none
  rw [Scan.nextFrom, hmunch]
  decide

end Lexer

end Lookahead
