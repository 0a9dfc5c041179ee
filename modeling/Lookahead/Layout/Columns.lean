import Lookahead.Text.Markup

/-!
Text tables. Every cell is filled up with blanks to the width of its column, which is
counted in bytes, and markup does not count. Cells are shown without their markup; for the header
it is taken out twice.
-/

namespace Lookahead

namespace Columns

def widthOf (cell : Text) : Nat := (Markup.plain cell).length

-- The greatest width in every column of rows of the same length.
def widths : List (List Text) → List Nat
  | [] => []
  | [row] => row.map widthOf
  | row :: rows => List.zipWith (fun cell width => max (widthOf cell) width) row (widths rows)

def fill (width : Nat) (cell : Text) : Text :=
  cell ++ List.replicate (width - widthOf cell) 0x20

def joinCells (cells : List Text) : Text := Text.join (text " | ") cells

def renderHeader (widths : List Nat) (header : List Text) : Text :=
  joinCells (List.zipWith (fun width cell => Markup.plain (Markup.plain (fill width cell)))
    widths header)

def renderRow (widths : List Nat) (row : List Text) : Text :=
  joinCells (List.zipWith (fun width cell => Markup.plain (fill width cell)) widths row)

def render (header : List Text) (rows : List (List Text)) : Text :=
  let widths := widths (header :: rows)
  Text.join (text "\n") (renderHeader widths header :: rows.map (renderRow widths))

end Columns

end Lookahead
