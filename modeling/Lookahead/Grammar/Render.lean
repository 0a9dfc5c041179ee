import Lookahead.Grammar.Basic

/-!
Grammars and rules as text.
-/

namespace Lookahead

namespace Grammar

def ruleText (g : Grammar) (r : Rule) : Text :=
  let names := if r.rhs.isEmpty then [epsilonName] else r.rhs.map g.nameOf
  Text.join (text " ") (g.nameOf (.nonterminal r.lhs) :: text "➞" :: names)

def numberedRule (g : Grammar) (r : Rule) : Text :=
  Text.numberField 3 r.serial ++ text ": " ++ g.ruleText r ++ text "\n"

def startName (g : Grammar) : Text := g.nameOf (.nonterminal g.start)

def render (g : Grammar) : Text :=
  text "grammar " ++ g.name ++ text " (start " ++ g.startName ++ text ")\n" ++
    g.rules.flatMap g.numberedRule

def dump (g : Grammar) : List Text :=
  [text "--- " ++ g.name ++ text " --------------------------------------------",
   text "start symbol = " ++ g.startName] ++
  g.rules.map (fun r =>
    Text.numberField 3 r.serial ++ text ": [" ++ g.nameOf (.nonterminal r.lhs) ++
      text "] ::= " ++ Text.bracketed (r.rhs.map g.nameOf)) ++
  [text "-------------------------------------------------"]

end Grammar

end Lookahead
