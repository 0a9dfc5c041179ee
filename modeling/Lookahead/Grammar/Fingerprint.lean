import Lookahead.Digest.Md5
import Lookahead.Grammar.Render

/-!
A fingerprint of the structure of a grammar: a digest of a plain description that names
everything in it.
-/

namespace Lookahead

-- Every rule is a list of names, the left-hand side first.
structure Description where
  name : Text
  terminals : List Terminal
  nonterminals : List Text
  rules : List (List Text)
  start : Text
deriving DecidableEq, Repr

namespace Description

-- A name in quotes. Quotes within the name stay as they are.
def quoted (name : Text) : Text := text "\"" ++ name ++ text "\""

def list (items : List Text) : Text :=
  text "[" ++ Text.join (text ",") items ++ text "]"

def terminal (t : Terminal) : Text :=
  text "\x7bName:" ++ quoted t.name ++ text ",TokType:" ++ Text.ofInt t.type ++ text "\x7d"

-- The description on one line, its fields in alphabetical order.
def render (d : Description) : Text :=
  text "\x7bName:" ++ quoted d.name ++
  text ",NonTerminals:" ++ list (d.nonterminals.map quoted) ++
  text ",Rules:" ++ list (d.rules.map fun names => list (names.map quoted)) ++
  text ",Start:" ++ quoted d.start ++
  text ",Terminals:" ++ list (d.terminals.map terminal) ++ text "\x7d"

end Description

namespace Grammar

def describe (g : Grammar) : Description :=
  { name := g.name
    terminals := g.terminals
    nonterminals := g.nonterminals
    rules := g.rules.map fun r => g.nameOf (.nonterminal r.lhs) :: r.rhs.map g.nameOf
    start := g.startName }

def fingerprint (g : Grammar) : Text := text "v1_" ++ Md5.hexDigest g.describe.render

end Grammar

end Lookahead
