import Lookahead.Layout.Columns
import Lookahead.Table.Basic

/-!
Tables and analyses for readers: as text tables and as a page of HTML.
-/

namespace Lookahead

def boolText (b : Bool) : Text := if b then text "true" else text "false"

def Analysis.render (a : Analysis) : Text :=
  let names (l : List Symbol) : Text := Text.bracketed (l.map a.grammar.nameOf)
  let header := [text "", text "nullable", text "FIRST", text "FOLLOW"]
  let line (i : Nat) : List Text :=
    let s := Symbol.nonterminal i
    [a.grammar.nameOf s, boolText (a.nullableSymbol s), names (a.firstSymbols s),
      names ((a.followSymbols? s).getD [])]
  Columns.render header ((List.range a.grammar.nonterminals.length).map line)

namespace Table

-- The number of a rule, and behind a slash the number of the first competing one.
def cellText (t : Table) (s lookahead : Symbol) : Except Fault Text := do
  match ← t.cell s lookahead with
  | (none, _) => return []
  | (some r, none) => return Text.ofNat r.serial
  | (some r, some c) => return Text.ofNat r.serial ++ text "/" ++ Text.ofNat c.serial

def rowText (t : Table) (i : Nat) : Except Fault (List Text) :=
  t.grammar.lookaheads.mapM (t.cellText (.nonterminal i))

def render (t : Table) : Except Fault Text := do
  let g := t.grammar
  let lines ← (List.range g.nonterminals.length).mapM fun i => do
    return g.nameOf (.nonterminal i) :: (← t.rowText i)
  return Columns.render (text "" :: g.lookaheads.map g.nameOf) lines

def htmlCell (cell : Text) : Text :=
  text "<td>" ++ (if cell.isEmpty then text "&nbsp;" else cell) ++ text "</td>\n"

def htmlRow (t : Table) (i : Nat) : Except Fault Text := do
  let cells ← t.rowText i
  return text "<tr><td>" ++ t.grammar.nameOf (.nonterminal i) ++ text "</td>\n" ++
    cells.flatMap htmlCell ++ text "</tr>\n"

-- A page with the table. Names are written as they are.
def html (t : Table) : Except Fault Text := do
  let g := t.grammar
  let rows ← (List.range g.nonterminals.length).mapM t.htmlRow
  return text "<html><body>\n" ++
    text "LL(1) table for " ++ g.name ++ text ", " ++ Text.ofNat t.size ++ text " entries<p>" ++
    text "<table border=1 cellspacing=0 cellpadding=5>\n" ++
    text "<tr bgcolor=#cccccc><td></td>\n" ++
    g.lookaheads.flatMap (fun s => text "<td>" ++ g.nameOf s ++ text "</td>") ++
    text "</tr>\n" ++ rows.flatten ++ text "</table></body></html>\n"

end Table

-- The page for a table that may be missing; without a table there is none.
def htmlOf (t : Option Table) : Except Table.Fault Text :=
  match t with
  | some t => t.html
  | none => .ok []

end Lookahead
