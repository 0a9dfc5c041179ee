import Lookahead.Grammar.Fingerprint
import Lookahead.Table.Basic

/-!
A cache of tables. Grammars with the same fingerprint share a table.
-/

namespace Lookahead

-- Tables in the order in which they were built, all with the same options.
structure TableCache where
  options : List Policy
  entries : List (Text × Table)

namespace TableCache

def new (options : List Policy) : TableCache := ⟨options, []⟩

def size (c : TableCache) : Nat := c.entries.length

structure Answer where
  entry : Nat
  table : Table
  isFresh : Bool

-- The table for a grammar, built on the first request.
def request (c : TableCache) (g : Grammar) : Except Table.Fault (TableCache × Answer) := do
  let key := g.fingerprint
  match c.entries.findIdx? (·.1 = key), c.entries.find? (·.1 = key) with
  | some i, some (_, table) => return (c, ⟨i, table, false⟩)
  | _, _ =>
    let table ← Table.build g.analyse c.options
    return ({ c with entries := c.entries ++ [(key, table)] }, ⟨c.entries.length, table, true⟩)

end TableCache

end Lookahead
