import Lookahead.Numeral.Integer
import Lookahead.Numeral.Real
import Lookahead.Token

/-!
From lexemes to values. The type of a token tells how its lexeme is read.
-/

namespace Lookahead

inductive ConversionError where
  | integer (lexeme : Text) (fault : Numeral.Fault)
  | real (lexeme : Text) (fault : Numeral.Fault)
  | quotation (lexeme : Text)
deriving DecidableEq, Repr

def ConversionError.message : ConversionError → Text
  | integer lexeme fault =>
    text "cannot convert " ++ lexeme ++ text ": strconv.ParseInt: parsing " ++
      Quoted.quote lexeme ++ text ": " ++ fault.message
  | real lexeme fault =>
    text "cannot convert " ++ lexeme ++ text ": strconv.ParseFloat: parsing " ++
      Quoted.quote lexeme ++ text ": " ++ fault.message
  | quotation lexeme =>
    text "cannot convert " ++ lexeme ++ text ": " ++ Numeral.Fault.malformed.message

-- The outcome of a conversion. Lexemes of other categories have no value. Reading a character
-- crashes on a literal with nothing between its quotes.
inductive Conversion where
  | value (v : Value)
  | absent
  | failed (error : ConversionError)
  | crashed
deriving DecidableEq, Repr

def Conversion.ofInteger (lexeme : Text) : Conversion :=
  match Numeral.readInteger lexeme with
  | .ok n => .value (.integer n)
  | .error fault => .failed (.integer lexeme fault)

def Conversion.ofReal (lexeme : Text) : Conversion :=
  match Numeral.readReal lexeme with
  | .ok bits => .value (.real bits)
  | .error fault => .failed (.real lexeme fault)

def Conversion.ofString (lexeme : Text) : Conversion :=
  match Quoted.unquote lexeme with
  | some t => .value (.string t)
  | none => .failed (.quotation lexeme)

def Conversion.ofCharacter (lexeme : Text) : Conversion :=
  match Quoted.unquote lexeme with
  | none => .failed (.quotation lexeme)
  | some t =>
    match Utf8.characters t with
    | [] => .crashed
    | c :: _ => .value (.character c.code)

def convert (type : TokenType) (lexeme : Text) : Conversion :=
  if type = TokenType.integer then .ofInteger lexeme
  else if type = TokenType.real then .ofReal lexeme
  else if type = TokenType.string || type = TokenType.rawString then .ofString lexeme
  else if type = TokenType.character then .ofCharacter lexeme
  else .absent

end Lookahead
