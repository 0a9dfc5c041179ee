import Lookahead.Text.Utf8

/-!
White space, and what depends on it: trimming a text and splitting it into words.
-/

namespace Lookahead

def isBlank (code : Nat) : Bool :=
  (0x09 ≤ code && code ≤ 0x0D) || code = 0x20 || code = 0x85 || code = 0xA0 || code = 0x1680 ||
  (0x2000 ≤ code && code ≤ 0x200A) || code = 0x2028 || code = 0x2029 || code = 0x202F ||
  code = 0x205F || code = 0x3000

namespace Text

private def bytesOf (cs : List Character) : Text := cs.flatMap (·.bytes)

def trim (t : Text) : Text :=
  let blank (c : Character) : Bool := isBlank c.code
  bytesOf (((Utf8.characters t).dropWhile blank).reverse.dropWhile blank).reverse

-- The maximal runs of characters that are no white space, from characters read so far and
-- characters ahead.
private def wordsFrom (word : List Character) : List Character → List Text
  | [] => if word.isEmpty then [] else [bytesOf word.reverse]
  | c :: rest =>
    if isBlank c.code then
      if word.isEmpty then wordsFrom [] rest else bytesOf word.reverse :: wordsFrom [] rest
    else wordsFrom (c :: word) rest

def words (t : Text) : List Text := wordsFrom [] (Utf8.characters t)

end Text

end Lookahead
