import Lookahead.Text.Markup
import Lookahead.Tree.Basic

/-!
Trees as text: on one line, and as an outline with one line per node. Neither can be
written if a node has no symbol to name it by.
-/

namespace Lookahead

namespace Tree

mutual

-- The text of a tree, followed by `rest`: a symbol, and for non-terminals the children in
-- parentheses.
def renderBefore? (g : Grammar) (rest : Text) : Tree → Option Text
  | missing => some (text "<nil>" ++ rest)
  | leaf s _ =>
    s.map fun s => g.nameOf s ++ (if s.isNonterminal then text "()" ++ rest else rest)
  | branch r children =>
    match r with
    | none => none
    | some r =>
      (renderAllBefore? g (text ")" ++ rest) children).map fun inner =>
        g.nameOf (.nonterminal r.lhs) ++ text "(" ++ inner

def renderAllBefore? (g : Grammar) (rest : Text) : List Tree → Option Text
  | [] => some rest
  | [t] => renderBefore? g rest t
  | t :: u :: more =>
    match renderAllBefore? g rest (u :: more) with
    | none => none
    | some later => renderBefore? g (text ", " ++ later) t

end

def render? (g : Grammar) (t : Tree) : Option Text := renderBefore? g [] t

def leafLabel (g : Grammar) (s : Option Symbol) (token : Option Token) : Text :=
  if (leaf s token).isTerminal then
    match token with
    | none => g.nameOf? s
    | some t => g.nameOf? s ++ text " " ++ Quoted.quote t.lexeme
  else g.nameOf? s ++ text " ➞ " ++ epsilonName

-- A line of an outline, for a node that is the last one of its siblings or is not. Markup in its
-- label is not shown.
def outlineLine (indent : Text) (isLast hasChildren : Bool) (label : Text) : Text :=
  indent ++ (if isLast then text "└" else text "├") ++
    (if hasChildren then text "─┬" else text "──") ++
    Markup.plain label ++ text "\n"

def childIndent (indent : Text) (isLast : Bool) : Text :=
  indent ++ (if isLast then text "  " else text "│ ")

mutual

-- The outline of a node and what is below it, followed by `rest`.
def outlineBefore? (g : Grammar) (indent : Text) (isLast : Bool) (rest : Text) :
    Tree → Option Text
  | missing => some (outlineLine indent isLast false (text "<nil>") ++ rest)
  | leaf s token => some (outlineLine indent isLast false (leafLabel g s token) ++ rest)
  | branch r children =>
    if children.isEmpty then
      let name := g.nameOf? (r.map fun r => .nonterminal r.lhs)
      some (outlineLine indent isLast false (name ++ text " ➞ " ++ epsilonName) ++ rest)
    else
      match r with
      | none => none
      | some r =>
        (outlineAllBefore? g (childIndent indent isLast) rest children).map fun below =>
          outlineLine indent isLast true (g.nameOf (.nonterminal r.lhs)) ++ below

def outlineAllBefore? (g : Grammar) (indent rest : Text) : List Tree → Option Text
  | [] => some rest
  | t :: more =>
    match outlineAllBefore? g indent rest more with
    | none => none
    | some later => outlineBefore? g indent more.isEmpty later t

end

-- The outline of a whole tree. A missing tree has an empty outline.
def outline? (g : Grammar) : Tree → Option Text
  | missing => some []
  | t => outlineBefore? g [] true [] t

end Tree

end Lookahead
