import Lookahead.Span
import Lookahead.Text.Quoted

/-!
Tokens. Grammars bind terminals to token types; types of general categories, such as
numbers and identifiers, are negative, single characters have their code point as type.
-/

namespace Lookahead

abbrev TokenType := Int

namespace TokenType

def endOfInput : TokenType := -1
def identifier : TokenType := -2
def integer : TokenType := -3
def real : TokenType := -4
def character : TokenType := -5
def string : TokenType := -6
def rawString : TokenType := -7

end TokenType

-- What the lexeme of a token stands for. Floating-point numbers are given by their bits.
inductive Value where
  | integer (n : Int64)
  | real (bits : UInt64)
  | character (code : Nat)
  | string (t : Text)
deriving DecidableEq, Repr

structure Token where
  type : TokenType
  lexeme : Text
  span : Span
  value : Option Value := none
deriving DecidableEq, Repr

instance : Inhabited Token := ⟨⟨TokenType.endOfInput, [], .null, none⟩⟩

namespace Token

def endAt (position : UInt64) : Token := ⟨TokenType.endOfInput, [], ⟨position, position⟩, none⟩

def render (t : Token) : Text :=
  Quoted.quote t.lexeme ++ text "|" ++ Text.ofInt t.type ++ text "@" ++
    Text.ofNat t.span.start.toNat

end Token

end Lookahead
