import Lookahead.Proofs.Lexis.Gap
import Lookahead.Proofs.Lexis.Lexeme
import Lookahead.Proofs.Text.Quoted

/-!
One token: the scanner skips a gap and takes the text behind it up to the place where it stands
afterwards. Only a character literal with nothing between its quotes gives no token.
-/

namespace Lookahead

namespace Conversion

variable {type : TokenType} {lexeme : Text}

theorem crashed_of_ofCharacter (h : Conversion.ofCharacter lexeme = .crashed) :
    Quoted.unquote lexeme = some [] := by
  unfold Conversion.ofCharacter at h
  split at h
  · cases h
  · next t hread =>
    split at h
    · next hnone =>
      have ht := Utf8.bytesOf_characters t
      rw [hnone] at ht
      rw [hread, ← ht]
      rfl
    · cases h

-- Only a character that is read as an empty text crashes a conversion.
theorem crashed_cases (h : convert type lexeme = .crashed) :
    type = TokenType.character ∧ Quoted.unquote lexeme = some [] := by
  unfold convert at h
  split_ifs at h with hinteger hreal hstring hcharacter
  · unfold Conversion.ofInteger at h
    split at h <;> cases h
  · unfold Conversion.ofReal at h
    split at h <;> cases h
  · unfold Conversion.ofString at h
    split at h <;> cases h
  · exact ⟨hcharacter, crashed_of_ofCharacter h⟩

end Conversion

namespace Scanner

variable {s : Scanner} {place : Text} {c : Cursor} {g : Glyph} {glyphs : List Glyph}
variable {offset : Nat} {t : Text}

theorem takeToken_ahead_suffix (place : Text) (h : c.ahead = g :: glyphs) :
    (takeToken place g c).2.ahead <:+ glyphs := by
  have htail : c.ahead.tail = glyphs := congrArg List.tail h
  unfold takeToken
  dsimp only
  split_ifs with hname hdecimal hstring hcharacter hraw hpoint hfraction
  · rw [← htail]
    exact Cursor.ahead_skipWhile_suffix
  · refine NumberScan.ahead_scan_suffix (by simp) fun _ => ⟨?_, htail⟩
    rw [Cursor.isAt, h]
    exact hdecimal
  · exact htail ▸ QuotationScan.ahead_string_suffix
  · exact htail ▸ QuotationScan.ahead_character_suffix
  · exact htail ▸ QuotationScan.ahead_rawString_suffix
  · refine NumberScan.ahead_scan_suffix (fun _ => ?_) (by simp)
    exact htail ▸ List.suffix_rfl
  · exact htail ▸ List.suffix_rfl
  · exact htail ▸ List.suffix_rfl

-- The types of tokens that may start with a glyph. None is an end of input, and character literals
-- start with their quote.
def Starts (g : Glyph) (type : TokenType) : Prop :=
  type ≠ TokenType.endOfInput ∧ (type = TokenType.character → g.code = 0x27)

theorem starts_code (g : Glyph) : Starts g g.code := by
  refine ⟨fun h => ?_, fun h => ?_⟩
  · have h : (g.code : Int) = -1 := h
    omega
  · have h : (g.code : Int) = -5 := h
    omega

theorem starts_numeral {token : List Glyph} {sawPoint : Bool} :
    Starts g (NumberScan.scan place token c sawPoint).1 := by
  have htypes : ∀ type ∈ [TokenType.integer, TokenType.real],
      type ≠ TokenType.endOfInput ∧ type ≠ TokenType.character := by decide
  obtain ⟨hend, hcharacter⟩ := htypes _ NumberScan.scan_type
  exact ⟨hend, fun h => absurd h hcharacter⟩

theorem takeToken_starts (place : Text) (g : Glyph) (c : Cursor) :
    Starts g (takeToken place g c).1 := by
  unfold takeToken
  dsimp only
  split_ifs with hname hdecimal hstring hcharacter hraw hpoint hfraction
  · exact ⟨(by decide : TokenType.identifier ≠ TokenType.endOfInput), nofun⟩
  · exact starts_numeral
  · exact ⟨(by decide : TokenType.string ≠ TokenType.endOfInput), nofun⟩
  · exact ⟨(by decide : TokenType.character ≠ TokenType.endOfInput), fun _ => hcharacter⟩
  · exact ⟨(by decide : TokenType.rawString ≠ TokenType.endOfInput), nofun⟩
  · exact starts_numeral
  · exact starts_code g
  · exact starts_code g

-- Glyphs from an offset up to the end of the input.
structure Rests (s : Scanner) (offset : Nat) (glyphs : List Glyph) : Prop where
  laid : Glyph.Laid offset glyphs
  length : offset + (Glyph.bytesOf glyphs).length = s.length

variable {taken rest : List Glyph}

theorem Rests.append (h : s.Rests offset (taken ++ rest)) :
    s.Rests (offset + (Glyph.bytesOf taken).length) rest := by
  refine ⟨h.laid.append, ?_⟩
  rw [← h.length, Glyph.bytesOf_append, List.length_append, Nat.add_assoc]

theorem offsetOf_eq (h : s.Rests offset glyphs) : s.offsetOf glyphs = UInt64.ofNat offset := by
  cases glyphs with
  | nil => exact congrArg UInt64.ofNat h.length.symm
  | cons g glyphs => exact congrArg UInt64.ofNat h.laid.offset_eq

-- A vocabulary, if there is one, that gives no lexeme the type of the end of input.
def AvoidsEnd (vocabulary : Option Vocabulary) : Prop :=
  ∀ v ∈ vocabulary, ∀ lexeme, v lexeme ≠ some TokenType.endOfInput

-- A token of the text with a lexeme at an offset.
structure Covers (token : Token) (start : Nat) (lexeme : Text) : Prop where
  type_ne : token.type ≠ TokenType.endOfInput
  lexeme_eq : token.lexeme = lexeme
  span_eq : token.span = ⟨UInt64.ofNat start, UInt64.ofNat (start + lexeme.length)⟩

variable {token : Token} {start : Nat} {lexeme : Text} {log : List Text}

theorem literalType?_ne (hvocabulary : AvoidsEnd s.vocabulary) {type : TokenType}
    (h : s.literalType? lexeme = some type) : type ≠ TokenType.endOfInput := by
  obtain ⟨v, hv, hlexeme⟩ := Option.bind_eq_some_iff.mp h
  rintro rfl
  exact hvocabulary v hv lexeme hlexeme

-- A type from the vocabulary does not change what is covered.
theorem Covers.retype (h : Covers token start lexeme) (hvocabulary : AvoidsEnd s.vocabulary) :
    Covers { token with type := (s.literalType? token.lexeme).getD token.type } start lexeme := by
  refine ⟨?_, h.lexeme_eq, h.span_eq⟩
  cases htype : s.literalType? token.lexeme with
  | none => exact h.type_ne
  | some type => exact literalType?_ne hvocabulary htype

theorem withValue_cases (place : Text) (log : List Text) (h : Covers token start lexeme) :
    (∃ token', (withValue place token log).1 = some token' ∧ Covers token' start lexeme) ∨
      ((withValue place token log).1 = none ∧ token.type = TokenType.character ∧
        Quoted.unquote token.lexeme = some []) := by
  unfold withValue
  split
  · exact .inl ⟨_, rfl, h.type_ne, h.lexeme_eq, h.span_eq⟩
  · exact .inl ⟨_, rfl, h⟩
  · exact .inl ⟨_, rfl, h⟩
  · next hcrash => exact .inr ⟨rfl, Conversion.crashed_cases hcrash⟩

theorem pairWith?_cases {type : TokenType} {pair : Text}
    (h : s.pairWith? lexeme c = some (type, pair)) (hvocabulary : AvoidsEnd s.vocabulary) :
    ∃ g glyphs, c.ahead = g :: glyphs ∧ pair = lexeme ++ Utf8.encode g.code ∧
      type ≠ TokenType.endOfInput := by
  unfold pairWith? at h
  split at h
  · next v g glyphs hv hahead =>
    obtain ⟨type', htype, heq⟩ := Option.map_eq_some_iff.mp h
    cases heq
    refine ⟨g, glyphs, hahead, rfl, ?_⟩
    rintro rfl
    exact hvocabulary v hv _ htype
  · cases h

-- Completing a token takes no more than the second character of an operator.
theorem complete_spec (place : Text) (h : Covers token start lexeme)
    (hvocabulary : AvoidsEnd s.vocabulary)
    (hrest : s.Rests (start + lexeme.length) c.ahead) :
    ∃ more, c.ahead = more ++ (s.complete place token c).2.ahead ∧
      ((∃ token', (s.complete place token c).1 = some token' ∧
          Covers token' start (lexeme ++ Glyph.bytesOf more)) ∨
        (more = [] ∧ (s.complete place token c).1 = none ∧ token.type = TokenType.character ∧
          Quoted.unquote lexeme = some [])) := by
  unfold complete
  split
  · split
    · next type pair hpair =>
      obtain ⟨g, glyphs, hahead, rfl, htype⟩ := pairWith?_cases hpair hvocabulary
      have htail : (c.advance s.sourceText).ahead = glyphs := congrArg List.tail hahead
      rw [hahead] at hrest
      have hbytes := hrest.laid.bytes_eq
      refine ⟨[g], by rw [htail]; exact hahead, .inl ⟨_, rfl, htype, ?_, ?_⟩⟩
      · rw [h.lexeme_eq, ← hbytes]
        simp
      · have hstop := offsetOf_eq (show s.Rests _ ([g] ++ glyphs) from hrest).append
        rw [htail, hstop, h.span_eq, List.length_append, Nat.add_assoc]
    · exact ⟨[], rfl, .inl ⟨_, rfl, by simpa using h.retype hvocabulary⟩⟩
  · split
    · exact ⟨[], rfl, .inl ⟨_, rfl, by simpa using h.retype hvocabulary⟩⟩
    · refine ⟨[], rfl, ?_⟩
      rcases withValue_cases place c.log h with ⟨token', hvalue, hcovers⟩ |
        ⟨hvalue, htype, hread⟩
      · exact .inl ⟨token', hvalue, by simpa using hcovers⟩
      · exact .inr ⟨rfl, hvalue, htype, h.lexeme_eq ▸ hread⟩

theorem eq_of_unquote {b : UInt8} {t : Text} (hb : b = Quoted.singleQuote)
    (h : Quoted.unquote (b :: t) = some []) : b :: t = [0x27, 0x27] := by
  subst hb
  have hsingle : Quoted.unquote (Quoted.singleQuote :: t) = Quoted.readSingle t := by
    simp [Quoted.unquote, Quoted.singleQuote, Quoted.doubleQuote]
  rw [hsingle] at h
  rw [Quoted.eq_of_readSingle h]
  rfl

-- The token that starts where a cursor stands, at the glyph `g`.
def tokenAt (s : Scanner) (g : Glyph) (c : Cursor) : Option Token × Cursor :=
  let place := placeOf s.sourceText g
  let after := (takeToken place g c).2
  s.complete place ⟨(takeToken place g c).1, Glyph.textUpTo c.ahead after.ahead,
    ⟨UInt64.ofNat g.offset, s.offsetOf after.ahead⟩, none⟩ after

def behindGap (s : Scanner) : Cursor :=
  skipFrom s.sourceText .space s.sourceText s.opened.ahead s.opened.log

theorem next_of_end (h : s.behindGap.ahead = []) : s.next.2.ahead = [] ∧
    s.next.1.token = some (Token.endAt (UInt64.ofNat s.length)) := by
  unfold behindGap at h
  simp [next, h]

theorem next_of_glyph (h : s.behindGap.ahead = g :: glyphs) :
    s.next.2.ahead = (s.tokenAt g s.behindGap).2.ahead ∧
      s.next.1.token = (s.tokenAt g s.behindGap).1 := by
  unfold behindGap at h
  simp [next, tokenAt, behindGap, h]

theorem tokenAt_spec (hvocabulary : AvoidsEnd s.vocabulary) (hahead : c.ahead = g :: glyphs)
    (h : s.Rests start c.ahead) :
    ∃ taken, c.ahead = taken ++ (s.tokenAt g c).2.ahead ∧ Glyph.bytesOf taken ≠ [] ∧
      ((∃ token, (s.tokenAt g c).1 = some token ∧ Covers token start (Glyph.bytesOf taken)) ∨
        ((s.tokenAt g c).1 = none ∧ Glyph.bytesOf taken = [0x27, 0x27])) := by
  obtain ⟨type_ne, type_character⟩ := takeToken_starts (placeOf s.sourceText g) g c
  obtain ⟨more, hmore⟩ := takeToken_ahead_suffix (placeOf s.sourceText g) hahead
  unfold tokenAt
  extract_lets place after
  have htaken : c.ahead = (g :: more) ++ after.ahead := by rw [hahead, ← hmore]; rfl
  have hglyph : g.offset = start ∧ g.bytes = Utf8.encode g.code := by
    rw [hahead] at h
    exact ⟨h.laid.offset_eq, h.laid.bytes_eq⟩
  rw [htaken] at h ⊢
  have hne : Glyph.bytesOf (g :: more) ≠ [] := by
    rw [Glyph.bytesOf_cons, hglyph.2]
    exact List.append_ne_nil_of_left_ne_nil (Utf8.encode_ne_nil g.code) _
  rw [Glyph.Laid.textUpTo_eq h.laid, offsetOf_eq h.append, hglyph.1]
  generalize hlexeme : Glyph.bytesOf (g :: more) = lexeme at *
  have hcovers : Covers ⟨(takeToken place g c).1, lexeme, ⟨UInt64.ofNat start,
      UInt64.ofNat (start + lexeme.length)⟩, none⟩ start lexeme := ⟨type_ne, rfl, rfl⟩
  obtain ⟨second, hsecond, hdone⟩ := complete_spec place hcovers hvocabulary
    (hlexeme ▸ h.append)
  refine ⟨(g :: more) ++ second, ?_, ?_, ?_⟩
  · rw [List.append_assoc, ← hsecond]
  · rw [Glyph.bytesOf_append, hlexeme]
    exact List.append_ne_nil_of_left_ne_nil hne _
  rw [Glyph.bytesOf_append, hlexeme]
  rcases hdone with ⟨token, htoken, hcovers⟩ | ⟨rfl, hnone, htype, hread⟩
  · exact .inl ⟨token, htoken, hcovers⟩
  · refine .inr ⟨hnone, ?_⟩
    -- The lexeme starts with the glyph `g`, which is a quote.
    rw [Glyph.bytesOf_cons, hglyph.2, type_character htype] at hlexeme
    subst hlexeme
    rw [Glyph.bytesOf_nil, List.append_nil]
    exact eq_of_unquote rfl hread

-- What a call does with the text ahead of it: skip a gap up to the end of the input, or skip a gap
-- and take the lexeme of a token, or crash on an empty character literal.
theorem next_spec (hvocabulary : AvoidsEnd s.vocabulary) (h : s.Rests offset s.opened.ahead) :
    (IsGap true (Glyph.bytesOf s.opened.ahead) ∧ s.next.2.ahead = [] ∧
        s.next.1.token = some (Token.endAt (UInt64.ofNat s.length))) ∨
      ∃ skipped taken, s.opened.ahead = skipped ++ (taken ++ s.next.2.ahead) ∧
        IsGap false (Glyph.bytesOf skipped) ∧ Glyph.bytesOf taken ≠ [] ∧
        ((∃ token, s.next.1.token = some token ∧
            Covers token (offset + (Glyph.bytesOf skipped).length) (Glyph.bytesOf taken)) ∨
          (s.next.1.token = none ∧ Glyph.bytesOf taken = [0x27, 0x27])) := by
  obtain ⟨skipped, hskipped, hgap⟩ : ∃ skipped, s.opened.ahead = skipped ++ s.behindGap.ahead ∧
      IsGap s.behindGap.ahead.isEmpty (Glyph.bytesOf skipped) :=
    skipFrom_spec _ .space _ _ _ h.laid.written
  cases hahead : s.behindGap.ahead with
  | nil =>
      rw [hahead, List.append_nil] at hskipped
      rw [hahead, ← hskipped] at hgap
      exact .inl ⟨hgap, next_of_end hahead⟩
  | cons g glyphs =>
      rw [hahead] at hgap
      rw [hskipped] at h ⊢
      obtain ⟨hnext, htoken⟩ := next_of_glyph hahead
      obtain ⟨taken, htaken, hne, hdone⟩ := tokenAt_spec hvocabulary hahead h.append
      rw [hnext, htoken]
      exact .inr ⟨skipped, taken, congrArg (skipped ++ ·) htaken, hgap, hne, hdone⟩

end Scanner

end Lookahead
