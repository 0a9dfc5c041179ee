import Lookahead.Lexis.Number
import Lookahead.Lexis.Quotation
import Lookahead.Source
import Lookahead.Text.Digit
import Lookahead.Text.Letter
import Lookahead.Token.Conversion

/-!
A tokenizer for the text of programs. It knows identifiers, numbers, character and string
literals; every other character is an operator of its own. White space and comments are skipped.

A vocabulary gives keywords and operators their token types, and makes operators of two
characters known.
-/

namespace Lookahead

abbrev Vocabulary := Text → Option TokenType

-- The vocabulary of a list of lexemes. Of several entries for a lexeme, the last one counts.
def Vocabulary.ofList (entries : List (Text × TokenType)) : Vocabulary :=
  fun lexeme => (entries.reverse.find? (·.1 = lexeme)).map (·.2)

-- `ahead` starts with the glyph behind the last token. The first glyph of all comes into sight
-- with the first token.
structure Scanner where
  sourceName : Text
  vocabulary : Option Vocabulary
  length : Nat
  ahead : List Glyph
  isFresh : Bool

namespace Scanner

def new (sourceName : Text) (vocabulary : Option Vocabulary) (input : Text) : Scanner :=
  ⟨sourceName, vocabulary, input.length, Glyph.ofText input, true⟩

def sourceText (s : Scanner) : Text :=
  if s.sourceName.isEmpty then text "<input>" else s.sourceName

def placeOf (source : Text) (g : Glyph) : Text :=
  source ++ text ":" ++ Text.ofNat g.line ++ text ":" ++ Text.ofNat g.column

-- Brings the first glyph into sight. A byte order mark at the beginning does not count.
def opened (s : Scanner) : Cursor :=
  if s.isFresh then
    let c : Cursor := ⟨s.ahead, Cursor.sight s.sourceText s.ahead []⟩
    if c.isAt (·.code = 0xFEFF) then c.advance s.sourceText else c
  else ⟨s.ahead, []⟩

def isSpace (g : Glyph) : Bool :=
  g.code = 0x09 || g.code = 0x0A || g.code = 0x0D || g.code = 0x20

-- What is being skipped: white space, a comment up to the line end, or a comment in brackets.
inductive Trivia where
  | space
  | line
  | block
deriving DecidableEq, Repr

-- Skips white space and comments. While a comment and the white space behind it are skipped,
-- messages name the place where the comment starts.
def skipFrom (source : Text) : Trivia → (place : Text) → List Glyph → List Text → Cursor
  | .space, _, [], log => ⟨[], log⟩
  | .space, place, g :: rest, log =>
    if isSpace g then skipFrom source .space place rest (Cursor.sight place rest log)
    else if g.code = 0x2F then
      match rest with
      | [] => ⟨[g], log⟩
      | h :: rest =>
        let place := placeOf source g
        if h.code = 0x2F then skipFrom source .line place rest (Cursor.sight place rest log)
        else if h.code = 0x2A then skipFrom source .block place rest (Cursor.sight place rest log)
        else ⟨g :: h :: rest, log⟩
    else ⟨g :: rest, log⟩
  | .line, _, [], log => ⟨[], log⟩
  | .line, place, g :: rest, log =>
    let next : Trivia := if g.code = 0x0A then .space else .line
    skipFrom source next place rest (Cursor.sight place rest log)
  | .block, place, [], log => ⟨[], Cursor.note place (text "comment not terminated") :: log⟩
  | .block, place, g :: rest, log =>
    match rest with
    | [] => skipFrom source .block place [] log
    | h :: rest =>
      if g.code = 0x2A && h.code = 0x2F then
        skipFrom source .space place rest (Cursor.sight place rest log)
      else
        skipFrom source .block place (h :: rest) (Cursor.sight place (h :: rest) log)

def startsIdentifier (g : Glyph) : Bool := g.code = 0x5F || isLetter g.code

def continuesIdentifier (g : Glyph) : Bool := startsIdentifier g || isDigit g.code

-- Takes the token that starts with the glyph `g`, at which the cursor stands.
def takeToken (place : Text) (g : Glyph) (c : Cursor) : TokenType × Cursor :=
  if startsIdentifier g then
    (TokenType.identifier, (c.advance place).skipWhile place continuesIdentifier)
  else if g.isDecimal then NumberScan.scan place c.ahead c false
  else if g.code = 0x22 then (TokenType.string, QuotationScan.string place c)
  else if g.code = 0x27 then (TokenType.character, QuotationScan.character place c)
  else if g.code = 0x60 then (TokenType.rawString, QuotationScan.rawString place c)
  else if g.code = 0x2E then
    let next := c.advance place
    if next.isAt (·.isDecimal) then NumberScan.scan place c.ahead next true
    else (g.code, next)
  else (g.code, c.advance place)

def offsetOf (s : Scanner) (ahead : List Glyph) : UInt64 :=
  UInt64.ofNat ((ahead.head?.map (·.offset)).getD s.length)

-- An operator may make up one of two characters together with the glyph behind it.
def pairWith? (s : Scanner) (lexeme : Text) (c : Cursor) : Option (TokenType × Text) :=
  match s.vocabulary, c.ahead with
  | some vocabulary, g :: _ =>
    let pair := lexeme ++ Utf8.encode g.code
    (vocabulary pair).map fun type => (type, pair)
  | _, _ => none

def literalType? (s : Scanner) (lexeme : Text) : Option TokenType :=
  s.vocabulary.bind fun vocabulary => vocabulary lexeme

-- A token with the value of its lexeme. There is no token if the conversion crashes.
def withValue (place : Text) (token : Token) (log : List Text) : Option Token × List Text :=
  match convert token.type token.lexeme with
  | .value v => (some { token with value := some v }, log)
  | .absent => (some token, log)
  | .failed e => (some token, Cursor.note place e.message :: log)
  | .crashed => (none, log)

-- Completes a token: literals get their type from the vocabulary, numbers and quotations get
-- their value.
def complete (s : Scanner) (place : Text) (token : Token) (c : Cursor) :
    Option Token × Cursor :=
  if 0 ≤ token.type then
    match s.pairWith? token.lexeme c with
    | some (type, pair) =>
      let c := c.advance s.sourceText
      (some ⟨type, pair, ⟨token.span.start, s.offsetOf c.ahead⟩, none⟩, c)
    | none => (some { token with type := (s.literalType? token.lexeme).getD token.type }, c)
  else if token.type = TokenType.identifier then
    (some { token with type := (s.literalType? token.lexeme).getD token.type }, c)
  else
    let (token, log) := withValue place token c.log
    (token, { c with log := log })

-- The next token, with the messages reported on the way, and the scanner behind it. At the end
-- of input there is no other token any more.
def next (s : Scanner) : Scanned × Scanner :=
  let c := s.opened
  let c := skipFrom s.sourceText .space s.sourceText c.ahead c.log
  let (token, c) :=
    match c.ahead with
    | [] => (some (Token.endAt (UInt64.ofNat s.length)), c)
    | g :: _ =>
      let place := placeOf s.sourceText g
      let (type, after) := takeToken place g c
      let span : Span := ⟨UInt64.ofNat g.offset, s.offsetOf after.ahead⟩
      s.complete place ⟨type, Glyph.textUpTo c.ahead after.ahead, span, none⟩ after
  (⟨token, c.log.reverse⟩, { s with ahead := c.ahead, isFresh := false })

def takeAll (s : Scanner) (extra : Nat) : List Scanned :=
  Scanned.takeFrom next (s.length + extra + 1) (extra + 1) s

end Scanner

end Lookahead
