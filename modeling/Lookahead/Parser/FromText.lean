import Lookahead.Lexis.Scanner
import Lookahead.Parser.Basic

/-!
Parsing the text of a program, with the literals of the grammar as vocabulary.
-/

namespace Lookahead

namespace Parser

def tokensOfText (g : Grammar) (sourceName input : Text) : Array Scanned :=
  ((Scanner.new sourceName (some g.literal?) input).takeAll 0).toArray

def parseScanned (t : Table) (items : Array Scanned) : Option Report :=
  parse (some t) (some (.ofSource (.ofScanned items))) items.size

def parseText (t : Table) (sourceName input : Text) : Option Report :=
  parseScanned t (tokensOfText t.grammar sourceName input)

end Parser

end Lookahead
