import Lookahead.Token

/-!
Token sources. A parser pulls tokens one at a time; a source tells what it gets on the
first pull, the second one, and so on for ever.
-/

namespace Lookahead

-- What a pull yields. A source may fail to deliver a token, or crash.
inductive Pull where
  | token (t : Token)
  | nothing
  | crash
deriving DecidableEq, Repr

abbrev Source := Nat → Pull

-- A source that delivers nothing from pull number `n` on.
def Source.exhaustedAfter (n : Nat) (s : Source) : Source :=
  fun i => if i < n then s i else .nothing

-- One pull from a scanner: a token, or none if the scanner has crashed, and the messages it
-- has reported on the way.
structure Scanned where
  token : Option Token
  messages : List Text
deriving DecidableEq, Repr

namespace Scanned

def pull (s : Scanned) : Pull :=
  match s.token with
  | some t => .token t
  | none => .crash

-- Takes items from a scan until the end of input has been seen `ends` times, or until the scan
-- crashes.
def takeFrom {σ : Type} (next : σ → Scanned × σ) : (fuel ends : Nat) → σ → List Scanned
  | 0, _, _ => []
  | _, 0, _ => []
  | fuel + 1, ends + 1, s =>
    let (item, s) := next s
    match item.token with
    | none => [item]
    | some t =>
      item :: takeFrom next fuel (if t.type = TokenType.endOfInput then ends else ends + 1) s

end Scanned

-- A source that delivers a list and then its last item again and again.
def Source.ofScanned (items : Array Scanned) : Source := fun i =>
  match items[i]?, items.back? with
  | some item, _ => item.pull
  | none, some last => last.pull
  | none, none => .nothing

def messagesOf (items : Array Scanned) (pulls : Nat) : List Text :=
  (items.toList.take pulls).flatMap (·.messages)

-- Lists of tokens as a source. Behind the last token, input has ended just behind it; a token for
-- the end of input within the list is delivered for ever.
namespace TokenList

def body (tokens : List Token) : List Token :=
  tokens.takeWhile (·.type ≠ TokenType.endOfInput)

def last (tokens : List Token) : Token :=
  match tokens[(body tokens).length]? with
  | some t => t
  | none => .endAt ((tokens.getLast?.map (·.span.stop)).getD 0)

def pull (tokens : List Token) (i : Nat) : Token := (body tokens)[i]?.getD (last tokens)

-- How many tokens before the end of input have been handed out after some pulls.
def consumed (tokens : List Token) (pulls : Nat) : Nat := min pulls (body tokens).length

def source (tokens : List Token) : Source := fun i => .token (pull tokens i)

-- The token at a position of a sequence of types. Its lexeme is the character with the type as
-- code, of which the low 32 bits count.
def ofType (position : Nat) (type : TokenType) : Token :=
  let code := Int.bmod type (Nat.pow 2 32)
  let lexeme := if code < 0 then Utf8.encode Utf8.replacement else Utf8.encode code.toNat
  ⟨type, lexeme, ⟨UInt64.ofNat position, UInt64.ofNat (position + 1)⟩, none⟩

def ofTypes (types : List TokenType) : List Token :=
  types.zipIdx.map fun (type, i) => ofType i type

end TokenList

end Lookahead
