import Lookahead.Grammar.Builder
import Lookahead.Table.Basic

/-!
A grammar for arithmetic expressions with sums, products and parentheses. It is LL(1), so the
tails of sums and products are right-recursive.
-/

namespace Lookahead

namespace Expression

def terminals : List Terminal :=
  [⟨text "number", TokenType.integer⟩, ⟨text "+", 0x2B⟩, ⟨text "-", 0x2D⟩, ⟨text "*", 0x2A⟩,
   ⟨text "/", 0x2F⟩, ⟨text "(", 0x28⟩, ⟨text ")", 0x29⟩]

def nonterminals : List Text :=
  [text "Expr", text "Expr'", text "Term", text "Term'", text "Factor", text "SumOp",
   text "ProdOp"]

def token (name : String) : Reference := ⟨text name, .terminal⟩
def phrase (name : String) : Reference := ⟨text name, .nonterminal⟩

def declarations : List Declaration :=
  [⟨text "Expr", [phrase "Term", phrase "Expr'"]⟩,
   ⟨text "Expr'", [phrase "SumOp", phrase "Term", phrase "Expr'"]⟩,
   ⟨text "Expr'", []⟩,
   ⟨text "Term", [phrase "Factor", phrase "Term'"]⟩,
   ⟨text "Term'", [phrase "ProdOp", phrase "Factor", phrase "Term'"]⟩,
   ⟨text "Term'", []⟩,
   ⟨text "Factor", [token "number"]⟩,
   ⟨text "Factor", [token "(", phrase "Expr", token ")"]⟩,
   ⟨text "SumOp", [token "+"]⟩,
   ⟨text "SumOp", [token "-"]⟩,
   ⟨text "ProdOp", [token "*"]⟩,
   ⟨text "ProdOp", [token "/"]⟩]

def source : GrammarSource :=
  ⟨text "Expressions", terminals, nonterminals, text "Expr", declarations⟩

def rules : List Rule :=
  [⟨0, 0, [.nonterminal 2, .nonterminal 1]⟩,
   ⟨1, 1, [.nonterminal 5, .nonterminal 2, .nonterminal 1]⟩,
   ⟨2, 1, []⟩,
   ⟨3, 2, [.nonterminal 4, .nonterminal 3]⟩,
   ⟨4, 3, [.nonterminal 6, .nonterminal 4, .nonterminal 3]⟩,
   ⟨5, 3, []⟩,
   ⟨6, 4, [.terminal 0]⟩,
   ⟨7, 4, [.terminal 5, .nonterminal 0, .terminal 6]⟩,
   ⟨8, 5, [.terminal 1]⟩,
   ⟨9, 5, [.terminal 2]⟩,
   ⟨10, 6, [.terminal 3]⟩,
   ⟨11, 6, [.terminal 4]⟩]

def grammar : Grammar :=
  { name := text "Expressions", terminals := terminals, nonterminals := nonterminals,
    rules := rules, declared := rules, start := 0 }

-- The declarations describe just this grammar.
theorem build_source : source.build.toOption = some grammar := by
  decide +kernel

def table : Except Table.Fault Table := Table.build grammar.analyse []

end Expression

end Lookahead
