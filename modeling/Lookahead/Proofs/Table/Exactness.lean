import Lookahead.Proofs.Analysis.Exactness
import Lookahead.Proofs.Table.Reduced
import Lookahead.Proofs.Table.Row

/-!
What a table shows. A rule is eligible under the lookaheads that FIRST and FOLLOW give for it. All
that can be asked of a table, its size and its list of conflicts follow from the eligible rules of
its cells, in order of their numbers.
-/

namespace Lookahead

open Table

-- Whether a rule is eligible under a lookahead: FIRST of its right-hand side holds the lookahead, or
-- the right-hand side may vanish and FOLLOW of the left-hand side does.
def Analysis.admits (a : Analysis) (r : Rule) (x : Symbol) : Bool :=
  (a.firstOfString r.rhs).1.contains x ||
    ((a.firstOfString r.rhs).2 && (a.followSymbols? (.nonterminal r.lhs)).any (·.contains x))

namespace Grammar

-- The eligible rules for a non-terminal and a lookahead.
def eligible (g : Grammar) (i : Nat) (x : Symbol) : List Rule :=
  g.rules.filter fun r => r.lhs = i && g.analyse.admits r x

-- The conflict of an eligible rule with the first one for the same lookahead.
def conflictUnder? (g : Grammar) (r : Rule) (x : Symbol) : Option Conflict :=
  conflictIn? (g.eligible r.lhs x) x r

end Grammar

-- A table that shows the eligible rules of a grammar, and nothing else.
structure Table.Shows (t : Table) (g : Grammar) : Prop where
  lookup_eq : ∀ i, ∀ x ∈ g.lookaheads,
    t.lookup (.nonterminal i) x = .ok (g.eligible i x).head?
  cell_eq : ∀ i, ∀ x ∈ g.lookaheads,
    t.cell (.nonterminal i) x = .ok ((g.eligible i x)[0]?, (g.eligible i x)[1]?)
  row_eq : ∀ i, t.row (.nonterminal i) = g.lookaheads.filter fun x => !(g.eligible i x).isEmpty
  size_eq : t.size = ((List.range g.nonterminals.length ×ˢ g.lookaheads).filter fun p =>
    !(g.eligible p.1 p.2).isEmpty).length
  conflicts_eq : t.conflicts =
    g.rules.flatMap fun r => g.lookaheads.filterMap (g.conflictUnder? r)

namespace Grammar.WellFormed

variable {g : Grammar} {r : Rule} {i c : Nat} {x : Symbol}

-- Rules are eligible under their predictors.
theorem admits_iff (hg : g.WellFormed) (hr : r ∈ g.rules) :
    g.analyse.admits r x = true ↔ g.Predicts x r := by
  have hrhs : ∀ y ∈ r.rhs, g.IsSymbol y := fun y hy => .inl (hg.rhs_declared r hr y hy)
  have hfirst := (hg.enumerates_first hrhs).mem_iff x
  have hvanish : (g.analyse.firstOfString r.rhs).2 = true ↔ g.Derives r.rhs [] :=
    hg.firstColumns_snd_iff
  have hfollow := (hg.enumerates_follow r.lhs).mem_iff x
  have hterminal : (x.isNonterminal = false ∧ ∃ rest, g.Derives r.rhs (x :: rest)) ↔
      x.isTerminal = true ∧ ∃ rest, g.Derives r.rhs (x :: rest) := by
    refine and_congr_left fun ⟨rest, hd⟩ => ⟨fun hn => ?_, isNonterminal_of_isTerminal⟩
    exact hg.isTerminal_of_derives_rhs hr hd hn List.mem_cons_self
  simp only [Analysis.admits, Analysis.followSymbols?, Option.any_some, Bool.or_eq_true,
    Bool.and_eq_true, List.contains_iff_mem, hfirst, hvanish, hfollow, hterminal]
  exact Iff.rfl

theorem eligible_eq (hg : g.WellFormed) (i : Nat) (hx : x ∈ g.lookaheads) :
    g.eligible i x = Table.eligible g.analyse i (g.column x) := by
  refine List.filter_congr fun r hr => ?_
  have hadmits : g.analyse.admits r x = (triggers g.analyse r).contains (g.column x) := by
    rw [Bool.eq_iff_iff, hg.admits_iff hr, IndexSet.contains_iff,
      hg.column_mem_triggers_iff hr hx]
  rw [hadmits]

theorem conflictUnder?_columnSymbol (hg : g.WellFormed) (r : Rule) (hc : c < g.columnCount) :
    g.conflictUnder? r (g.columnSymbol c) = conflict? g r c := by
  rw [conflictUnder?, conflict?, hg.eligible_eq r.lhs (columnSymbol_mem hc),
    column_columnSymbol hc]

theorem ascending_eligible (hg : g.WellFormed) (i : Nat) (x : Symbol) :
    (g.eligible i x).Pairwise fun r r' => r.serial < r'.serial :=
  hg.ascending_rules.filter _

end Grammar.WellFormed

namespace Table

variable {g : Grammar} {t : Table} {options : List Policy}

theorem shows_of_build (hb : build g.analyse options = .ok t) (hg : g.WellFormed)
    (hsmall : g.rules.length < 2 ^ 31) : t.Shows g where
  lookup_eq := by
    intro i x hx
    rw [hg.eligible_eq i hx]
    exact lookup_eq hb hg hsmall i (Grammar.mem_lookaheads_iff.mp hx).1
  cell_eq := by
    intro i x hx
    rw [hg.eligible_eq i hx]
    exact cell_eq hb hg hsmall i (Grammar.mem_lookaheads_iff.mp hx).1
  row_eq := by
    intro i
    rw [row_eq hb hg hsmall i]
    refine List.filter_congr fun x hx => ?_
    rw [hg.eligible_eq i hx]
  size_eq := by
    rw [size_eq hb hg hsmall]
    congr 1
    refine List.filter_congr fun p hp => ?_
    rw [hg.eligible_eq p.1 (List.mem_product.mp hp).2]
  conflicts_eq := by
    rw [conflicts_eq hb hg hsmall]
    refine List.flatMap_congr fun r _ => ?_
    rw [Grammar.lookaheads_eq_map, List.filterMap_map]
    refine List.filterMap_congr fun c hc => ?_
    exact (hg.conflictUnder?_columnSymbol r (List.mem_range.mp hc)).symm

-- Building a table never breaks down, and the table shows the rules that derivations ask for.
theorem build_shows (hg : g.IsFirstBuild) (hsmall : g.rules.length < 2 ^ 31)
    (options : List Policy) :
    (∀ r ∈ g.rules, ∀ x, g.analyse.admits r x = true ↔ g.Predicts x r) ∧
      (∀ i x, (g.eligible i x).Pairwise fun r r' => r.serial < r'.serial) ∧
      ∃ t, build g.analyse options = .ok t ∧ t.Shows g := by
  have hwf := hg.wellFormed
  obtain ⟨t, hb, -⟩ := hwf.build_holds hsmall options
  exact ⟨fun r hr x => hwf.admits_iff hr, hwf.ascending_eligible, t, hb,
    shows_of_build hb hwf hsmall⟩

-- Both rules of the first non-terminal are eligible under the terminal behind the other one.
theorem build_shows_hiddenRecursion :
    ∃ t, build hiddenRecursion.analyse [.bestEffort] = .ok t ∧
      t.lookup (.nonterminal 0) (.terminal 1) =
        .ok (some ⟨0, 0, [.nonterminal 1, .nonterminal 0, .terminal 0]⟩) ∧
      t.cell (.nonterminal 0) (.terminal 1) =
        .ok (some ⟨0, 0, [.nonterminal 1, .nonterminal 0, .terminal 0]⟩,
          some ⟨1, 0, [.terminal 1]⟩) ∧
      t.row (.nonterminal 0) = [.terminal 1] ∧ t.size = 2 ∧
      t.conflicts = [⟨0, .terminal 1, ⟨0, 0, [.nonterminal 1, .nonterminal 0, .terminal 0]⟩,
        ⟨1, 0, [.terminal 1]⟩⟩] := by
  obtain ⟨-, -, t, hb, ht⟩ :=
    build_shows isFirstBuild_hiddenRecursion (by decide) [.bestEffort]
  have hx : Symbol.terminal 1 ∈ hiddenRecursion.lookaheads := by decide
  refine ⟨t, hb, (ht.lookup_eq 0 _ hx).trans ?_, (ht.cell_eq 0 _ hx).trans ?_,
    (ht.row_eq 0).trans ?_, ht.size_eq.trans ?_, ht.conflicts_eq.trans ?_⟩
  all_goals decide +kernel

end Table

end Lookahead
