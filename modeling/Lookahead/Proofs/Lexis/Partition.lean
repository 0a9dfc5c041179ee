import Lookahead.Grammar.Basic
import Lookahead.Proofs.Lexis.Advance

/-!
A scanner divides its input into gaps and lexemes, with nothing lost, repeated or made up: the
texts of both, one behind the other, are the input. It gives a token for each of the lexemes, and
then the end of the input again and again, unless it crashes on an empty character literal.
-/

namespace Lookahead

namespace Scanner

-- What stands in front of the first gap.
def byteOrderMark : Text := [0xEF, 0xBB, 0xBF]

def markOf (input : Text) : Text := if byteOrderMark <+: input then byteOrderMark else []

-- How a text, from an offset on, falls into gaps and lexemes of tokens, up to a rest.
inductive Tokenizes : (offset : Nat) → Text → List Token → (rest : Text) → Prop
  | nil {offset : Nat} {t : Text} : Tokenizes offset t [] t
  | cons {offset : Nat} {gap lexeme t rest : Text} {token : Token} {tokens : List Token}
      (hgap : IsGap false gap) (hne : lexeme ≠ [])
      (htoken : Covers token (offset + gap.length) lexeme)
      (h : Tokenizes (offset + gap.length + lexeme.length) t tokens rest) :
      Tokenizes offset (gap ++ (lexeme ++ t)) (token :: tokens) rest

-- A token with just the bytes between its positions as its lexeme.
structure IsExact (input : Text) (token : Token) : Prop where
  type_ne : token.type ≠ TokenType.endOfInput
  start_lt : token.span.start < token.span.stop
  stop_le : token.span.stop.toNat ≤ input.length
  lexeme_eq : token.lexeme = (input.drop token.span.start.toNat).take
    (token.span.stop.toNat - token.span.start.toNat)

namespace Tokenizes

variable {offset : Nat} {t rest : Text} {token : Token} {tokens : List Token}

-- A token has one byte at least.
theorem length_le (h : Tokenizes offset t tokens rest) :
    tokens.length + rest.length ≤ t.length := by
  induction h with
  | nil => exact Nat.le_of_eq (Nat.zero_add _)
  | cons _ hne _ _ ih =>
      have hpos := List.length_pos_iff.mpr hne
      simp only [List.length_cons, List.length_append]
      omega

-- Where a token is found in a text.
theorem exists_covers (h : Tokenizes offset t tokens rest) (htoken : token ∈ tokens) :
    ∃ before lexeme behind, t = before ++ (lexeme ++ behind) ∧ lexeme ≠ [] ∧
      Covers token (offset + before.length) lexeme := by
  induction h with
  | nil => cases htoken
  | @cons offset gap lexeme t rest first tokens _ hne hfirst _ ih =>
      rcases List.mem_cons.mp htoken with rfl | htoken
      · exact ⟨gap, lexeme, t, rfl, hne, hfirst⟩
      · obtain ⟨before, lexeme', behind, rfl, hne', hcovers⟩ := ih htoken
        refine ⟨gap ++ (lexeme ++ before), lexeme', behind, by simp, hne', ?_⟩
        rw [List.length_append, List.length_append, ← Nat.add_assoc, ← Nat.add_assoc]
        exact hcovers

variable {input front : Text}

theorem isExact (h : Tokenizes front.length t tokens rest) (hinput : input = front ++ t)
    (hlength : input.length < UInt64.size) (htoken : token ∈ tokens) : IsExact input token := by
  obtain ⟨before, lexeme, behind, rfl, hne, type_ne, lexeme_eq, span_eq⟩ := h.exists_covers htoken
  have hpos := List.length_pos_iff.mpr hne
  have hfits : front.length + before.length + lexeme.length ≤ input.length := by
    rw [hinput]
    simp only [List.length_append]
    omega
  have hstart : token.span.start.toNat = front.length + before.length := by
    rw [span_eq]
    exact UInt64.toNat_ofNat_of_lt' (by omega)
  have hstop : token.span.stop.toNat = front.length + before.length + lexeme.length := by
    rw [span_eq]
    exact UInt64.toNat_ofNat_of_lt' (by omega)
  refine ⟨type_ne, ?_, ?_, ?_⟩
  · rw [UInt64.lt_iff_toNat_lt]
    omega
  · omega
  · rw [lexeme_eq, hstart, hstop, Nat.add_sub_cancel_left, hinput, ← List.append_assoc,
      List.drop_left' (List.length_append), List.take_left' rfl]

theorem pairwise (h : Tokenizes offset t tokens rest) (hlength : offset + t.length < UInt64.size) :
    tokens.Pairwise fun a b => a.span.stop ≤ b.span.start := by
  induction h with
  | nil => exact .nil
  | @cons offset gap lexeme t rest first tokens _ _ hfirst htokens ih =>
      simp only [List.length_append] at hlength
      refine .cons ?_ (ih (by omega))
      intro token htoken
      obtain ⟨before, lexeme', behind, rfl, -, hcovers⟩ := htokens.exists_covers htoken
      simp only [List.length_append] at hlength
      rw [hfirst.span_eq, hcovers.span_eq, UInt64.le_iff_toNat_le,
        UInt64.toNat_ofNat_of_lt' (by omega), UInt64.toNat_ofNat_of_lt' (by omega)]
      omega

end Tokenizes

-- The token of a call, counted from 0. There is none if the call crashes.
def call : Scanner → (n : Nat) → Option Token
  | s, 0 => s.next.1.token
  | s, n + 1 => call s.next.2 n

variable {s : Scanner} {offset : Nat} {input : Text}

-- A call leaves the input alone, and the next one goes on where it stopped.
theorem next_rests {taken : List Glyph} (h : s.Rests offset s.opened.ahead)
    (heq : s.opened.ahead = taken ++ s.next.2.ahead) :
    s.next.2.Rests (offset + (Glyph.bytesOf taken).length) s.next.2.opened.ahead := by
  rw [heq] at h
  exact ⟨h.append.laid, h.append.length⟩

-- The end of the input, once it has been reached, is never left.
theorem next_at_end (hvocabulary : AvoidsEnd s.vocabulary) (h : s.Rests offset s.opened.ahead)
    (hend : s.opened.ahead = []) : s.next.2.ahead = [] ∧
      s.next.1.token = some (Token.endAt (UInt64.ofNat s.length)) := by
  rcases next_spec hvocabulary h with ⟨-, hnext⟩ | ⟨skipped, taken, heq, -, hne, -⟩
  · exact hnext
  · rw [hend] at heq
    obtain ⟨-, hrest⟩ := List.append_eq_nil_iff.mp heq.symm
    rw [(List.append_eq_nil_iff.mp hrest).1] at hne
    exact absurd rfl hne

theorem call_of_end (hvocabulary : AvoidsEnd s.vocabulary) (h : s.Rests offset s.opened.ahead)
    (hend : s.opened.ahead = []) (n : Nat) :
    s.call n = some (Token.endAt (UInt64.ofNat s.length)) := by
  induction n generalizing s offset with
  | zero => exact (next_at_end hvocabulary h hend).2
  | succ n ih =>
      have hnext := (next_at_end hvocabulary h hend).1
      have heq : s.opened.ahead = [] ++ s.next.2.ahead := by rw [hend, hnext]; rfl
      exact ih (s := s.next.2) hvocabulary (next_rests h heq) hnext

-- How the calls end: with the end of the input, for ever, or with a crash at an empty character
-- literal.
inductive Ending (s : Scanner) (n : Nat) : (rest : Text) → Prop
  | exhausted {rest : Text} (hgap : IsGap true rest)
      (h : ∀ m, s.call (n + m) = some (Token.endAt (UInt64.ofNat s.length))) : Ending s n rest
  | crashed {gap behind : Text} (hgap : IsGap false gap) (h : s.call n = none) :
      Ending s n (gap ++ ([0x27, 0x27] ++ behind))

theorem Ending.behind {n : Nat} {rest : Text} (h : Ending s.next.2 n rest) :
    Ending s (n + 1) rest := by
  cases h with
  | exhausted hgap h =>
      refine .exhausted hgap fun m => ?_
      rw [Nat.add_right_comm]
      exact h m
  | crashed hgap h => exact .crashed hgap h

-- By induction on the text that is left: each call but the last ones takes a lexeme off it.
theorem calls_spec (hvocabulary : AvoidsEnd s.vocabulary) (h : s.Rests offset s.opened.ahead) :
    ∃ tokens rest, Tokenizes offset (Glyph.bytesOf s.opened.ahead) tokens rest ∧
      (∀ i (hi : i < tokens.length), s.call i = some tokens[i]) ∧
      Ending s tokens.length rest := by
  generalize hn : (Glyph.bytesOf s.opened.ahead).length = n
  induction n using Nat.strongRecOn generalizing s offset with
  | ind n ih =>
      rcases next_spec hvocabulary h with ⟨hgap, hend, htoken⟩ |
        ⟨skipped, taken, heq, hgap, hne, hdone⟩
      · refine ⟨[], _, .nil, nofun, .exhausted hgap ?_⟩
        have hrests := next_rests h (show _ = s.opened.ahead ++ _ by rw [hend, List.append_nil])
        intro m
        cases m with
        | zero => exact htoken
        | succ m =>
            rw [List.length_nil, Nat.zero_add]
            exact call_of_end (s := s.next.2) hvocabulary hrests hend m
      have htext : Glyph.bytesOf s.opened.ahead =
          Glyph.bytesOf skipped ++ (Glyph.bytesOf taken ++ Glyph.bytesOf s.next.2.ahead) := by
        rw [heq, Glyph.bytesOf_append, Glyph.bytesOf_append]
      rcases hdone with ⟨token, htoken, hcovers⟩ | ⟨hnone, hempty⟩
      · have hshorter : (Glyph.bytesOf s.next.2.ahead).length < n := by
          have hpos := List.length_pos_iff.mpr hne
          rw [← hn, htext, List.length_append, List.length_append]
          omega
        have hrests := next_rests h (heq.trans (List.append_assoc skipped taken _).symm)
        rw [Glyph.bytesOf_append, List.length_append, ← Nat.add_assoc] at hrests
        obtain ⟨tokens, rest, htokenizes, hcalls, hending⟩ :=
          ih _ hshorter (s := s.next.2) hvocabulary hrests rfl
        refine ⟨token :: tokens, rest, ?_, ?_, hending.behind⟩
        · rw [htext]
          exact .cons hgap hne hcovers htokenizes
        · intro i hi
          cases i with
          | zero => exact htoken
          | succ i => exact hcalls i (Nat.lt_of_succ_lt_succ hi)
      · refine ⟨[], _, .nil, nofun, ?_⟩
        rw [htext, hempty]
        exact .crashed hgap hnone

-- A first glyph is a byte order mark if the text starts with the bytes of one.
theorem code_of_mark {rest : Text} {g : Glyph} {glyphs : List Glyph}
    (h : Glyph.ofText (byteOrderMark ++ rest) = g :: glyphs) : g.code = 0xFEFF := by
  obtain ⟨rfl, -⟩ := List.cons.inj h
  simp [Utf8.decode, Utf8.tails, Utf8.leadBits, Utf8.isTail]

-- Opening takes the byte order mark of a text, if there is one.
theorem opened_new (id : Text) (vocabulary : Option Vocabulary)
    (hvalid : Utf8.isValid input = true) :
    (new id vocabulary input).Rests (markOf input).length (new id vocabulary input).opened.ahead ∧
      input = markOf input ++ Glyph.bytesOf (new id vocabulary input).opened.ahead := by
  suffices h : Glyph.Laid (markOf input).length (new id vocabulary input).opened.ahead ∧
      input = markOf input ++ Glyph.bytesOf (new id vocabulary input).opened.ahead by
    obtain ⟨hlaid, hinput⟩ := h
    refine ⟨⟨hlaid, ?_⟩, hinput⟩
    rw [← List.length_append, ← hinput]
    rfl
  have hlaid := Glyph.laid_ofText hvalid
  have hbytes := Glyph.bytesOf_ofText input
  cases hglyphs : Glyph.ofText input with
  | nil =>
      have hahead : (new id vocabulary input).opened.ahead = [] := by
        simp [opened, new, hglyphs, Cursor.isAt]
      rw [hglyphs] at hbytes
      rw [hahead, ← hbytes]
      exact ⟨.nil, rfl⟩
  | cons g glyphs =>
      have hahead : (new id vocabulary input).opened.ahead =
          if g.code = 0xFEFF then glyphs else g :: glyphs := by
        simp [opened, new, hglyphs, Cursor.isAt, apply_ite Cursor.ahead]
      rw [hglyphs] at hlaid hbytes
      rw [hahead]
      by_cases hcode : g.code = 0xFEFF
      · have hg : g.bytes = byteOrderMark := by rw [hlaid.bytes_eq, hcode]; rfl
        have hrest := (show Glyph.Laid _ ([g] ++ glyphs) from hlaid).append
        rw [Glyph.bytesOf_cons, hg] at hrest hbytes
        have hmark : markOf input = byteOrderMark := if_pos ⟨_, hbytes⟩
        rw [if_pos hcode, hmark]
        exact ⟨hrest, hbytes.symm⟩
      · have hmark : markOf input = [] := by
          refine if_neg ?_
          rintro ⟨rest, rfl⟩
          exact hcode (code_of_mark hglyphs)
        rw [if_neg hcode, hmark]
        exact ⟨hlaid, hbytes.symm⟩

theorem avoidsEnd_ofList {entries : List (Text × TokenType)}
    (h : ∀ entry ∈ entries, entry.2 ≠ TokenType.endOfInput) :
    AvoidsEnd (some (Vocabulary.ofList entries)) := by
  intro v hv lexeme hlexeme
  obtain rfl := Option.mem_some.mp hv
  obtain ⟨entry, hentry, htype⟩ := Option.map_eq_some_iff.mp hlexeme
  exact h entry (List.mem_reverse.mp (List.mem_of_find?_eq_some hentry)) htype

-- The types of the literals of a grammar are not negative.
theorem avoidsEnd_grammar (g : Grammar) : AvoidsEnd (some g.literal?) := by
  intro v hv lexeme hlexeme
  obtain rfl := Option.mem_some.mp hv
  unfold Grammar.literal? at hlexeme
  split at hlexeme
  · split_ifs at hlexeme with hnegative
    rw [Option.some.inj hlexeme] at hnegative
    exact hnegative (by decide)
  · cases hlexeme

-- The calls of a scanner give its well-formed input back piece by piece: gaps, which are skipped,
-- and lexemes, each with its positions, one behind the other.
theorem input_partitioned (id : Text) (vocabulary : Option Vocabulary) (input : Text)
    (hvalid : Utf8.isValid input = true) (hlength : input.length < UInt64.size)
    (hvocabulary : AvoidsEnd vocabulary) :
    ∃ body tokens rest, input = markOf input ++ body ∧
      Tokenizes (markOf input).length body tokens rest ∧ tokens.length ≤ input.length ∧
      (∀ i (hi : i < tokens.length), (new id vocabulary input).call i = some tokens[i]) ∧
      (∀ token ∈ tokens, IsExact input token) ∧
      tokens.Pairwise (fun a b => a.span.stop ≤ b.span.start) ∧
      Ending (new id vocabulary input) tokens.length rest := by
  obtain ⟨hrests, hinput⟩ := opened_new id vocabulary hvalid
  obtain ⟨tokens, rest, htokenizes, hcalls, hending⟩ := calls_spec hvocabulary hrests
  refine ⟨_, tokens, rest, hinput, htokenizes, ?_, hcalls, ?_, ?_, hending⟩
  · have htokens := htokenizes.length_le
    rw [hinput, List.length_append]
    omega
  · exact fun token htoken => htokenizes.isExact hinput hlength htoken
  · apply htokenizes.pairwise
    rw [← List.length_append, ← hinput]
    exact hlength

theorem input_partitioned_sum : Utf8.isValid (text "x+=1 //") = true ∧
    AvoidsEnd (some (Vocabulary.ofList [(text "+=", 300)])) ∧
    ∃ body tokens rest, text "x+=1 //" = markOf (text "x+=1 //") ++ body ∧
      Tokenizes 0 body tokens rest ∧ tokens.length ≤ 7 ∧
      (∀ i (hi : i < tokens.length),
        (new [] (some (Vocabulary.ofList [(text "+=", 300)])) (text "x+=1 //")).call i =
          some tokens[i]) ∧
      (∀ token ∈ tokens, IsExact (text "x+=1 //") token) ∧
      tokens.Pairwise (fun a b => a.span.stop ≤ b.span.start) ∧
      Ending (new [] (some (Vocabulary.ofList [(text "+=", 300)])) (text "x+=1 //"))
        tokens.length rest := by
  have hvocabulary : AvoidsEnd (some (Vocabulary.ofList [(text "+=", 300)])) :=
    avoidsEnd_ofList (by decide)
  exact ⟨by decide, hvocabulary,
    input_partitioned [] _ (text "x+=1 //") (by decide) (by decide) hvocabulary⟩

-- Two quotes are well-formed text, but the call that takes them gives no token.
theorem call_empty_quotes : Utf8.isValid (text "''") = true ∧ AvoidsEnd none ∧
    (new [] none (text "''")).call 0 = none :=
  ⟨by decide, nofun, by decide⟩

end Scanner

end Lookahead
