import Lookahead.Proofs.Analysis.LeftCorner
import Lookahead.Proofs.Table.Conflicts

/-!
The verdict on a table in terms of derivations: left-recursive grammars are refused under either
policy, and the others under the strict one if two rules of a non-terminal share a predictor.
-/

namespace Lookahead

namespace Grammar

-- A lookahead under which a rule may have to be expanded.
def Predicts (g : Grammar) (x : Symbol) (r : Rule) : Prop :=
  (x.isTerminal = true ∧ ∃ rest, g.Derives r.rhs (x :: rest)) ∨
    (g.Derives r.rhs [] ∧
      ((x.isTerminal = true ∧ ∃ b < g.nonterminals.length, ∃ u v,
          g.Derives [.nonterminal b] (u ++ .nonterminal r.lhs :: x :: v)) ∨
        (x = .endOfInput ∧ ∃ u, g.Derives [.nonterminal g.start] (u ++ [.nonterminal r.lhs]))))

def HasCommonPredictor (g : Grammar) : Prop :=
  ∃ r ∈ g.rules, ∃ r' ∈ g.rules, r ≠ r' ∧ r.lhs = r'.lhs ∧ ∃ x, g.Predicts x r ∧ g.Predicts x r'

variable {g : Grammar} {r : Rule} {i c : Nat} {x : Symbol}

namespace WellFormed

-- Lookaheads in what the right-hand side of a rule derives are terminals of the grammar.
theorem declares_of_derives_rhs (hg : g.WellFormed) (hr : r ∈ g.rules) {s : List Symbol}
    (hd : g.Derives r.rhs s) (hx : x.isNonterminal = false) (hs : x ∈ s) : g.Declares x :=
  hg.declares_of_derives ((derives_rule hr).trans hd) hx hs

theorem isTerminal_of_derives_rhs (hg : g.WellFormed) (hr : r ∈ g.rules) {s : List Symbol}
    (hd : g.Derives r.rhs s) (hx : x.isNonterminal = false) (hs : x ∈ s) : x.isTerminal = true :=
  isTerminal_of_declares hx (hg.declares_of_derives_rhs hr hd hx hs)

-- The columns of predictors are triggers, and no other columns of lookaheads are.
theorem column_mem_triggers_iff (hg : g.WellFormed) (hr : r ∈ g.rules) (hx : x ∈ g.lookaheads) :
    g.column x ∈ Table.triggers g.analyse r ↔ g.Predicts x r := by
  have hrhs : ∀ y ∈ r.rhs, g.IsSymbol y := fun y hy => .inl (hg.rhs_declared r hr y hy)
  rw [hg.mem_triggers_iff, hg.beginsWith_column_iff hrhs hx, hg.followedBy_column_iff hx]
  refine or_congr_left ⟨?_, And.right⟩
  rintro ⟨rest, hd⟩
  have hn := (mem_lookaheads_iff.mp hx).1
  exact ⟨hg.isTerminal_of_derives_rhs hr hd hn List.mem_cons_self, rest, hd⟩

theorem mem_lookaheads_of_predicts (hg : g.WellFormed) (hr : r ∈ g.rules) (h : g.Predicts x r) :
    x ∈ g.lookaheads := by
  rcases h with ⟨hx, rest, hd⟩ | ⟨-, hfollows⟩
  · have hn := isNonterminal_of_isTerminal hx
    have hdecl := hg.declares_of_derives_rhs hr hd hn List.mem_cons_self
    exact mem_lookaheads_iff.mpr ⟨hn, .inl hdecl⟩
  · exact hg.mem_lookaheads_of_follows hfollows

-- The triggers of a rule are the columns of its predictors.
theorem mem_triggers_iff_predicts (hg : g.WellFormed) (hr : r ∈ g.rules) :
    c ∈ Table.triggers g.analyse r ↔ ∃ x, g.column x = c ∧ g.Predicts x r := by
  constructor
  · intro h
    have hc := hg.lt_of_mem_triggers hr h
    rw [← column_columnSymbol hc] at h
    exact ⟨_, column_columnSymbol hc,
      (hg.column_mem_triggers_iff hr (columnSymbol_mem hc)).mp h⟩
  · rintro ⟨x, rfl, hx⟩
    exact (hg.column_mem_triggers_iff hr (hg.mem_lookaheads_of_predicts hr hx)).mpr hx

end WellFormed

end Grammar

namespace Table

variable {g : Grammar} {t : Table} {options : List Policy}

theorem isLeftRecursive_iff (hb : build g.analyse options = .ok t) (hg : g.WellFormed)
    (hsmall : g.rules.length < 2 ^ 31) : t.isLeftRecursive = true ↔ g.IsLeftRecursive := by
  rw [isLeftRecursive, (holds_of_build hb hg hsmall).1, ← hg.leftRecursive_ne_nil_iff]
  simp

theorem hasConflicts_iff (hb : build g.analyse options = .ok t) (hg : g.WellFormed)
    (hsmall : g.rules.length < 2 ^ 31) : t.hasConflicts = true ↔ g.HasCommonPredictor := by
  have hc := conflicts_eq_nil_iff hb hg hsmall
  have hne : t.hasConflicts = true ↔ ¬t.conflicts = [] := by simp [hasConflicts]
  rw [hne, hc]
  constructor
  · intro h
    push Not at h
    obtain ⟨r, hr, r', hr', hl, c, h₁, h₂, hne⟩ := h
    obtain ⟨x, hx, hp⟩ := (hg.mem_triggers_iff_predicts hr).mp h₁
    obtain ⟨y, hy, hp'⟩ := (hg.mem_triggers_iff_predicts hr').mp h₂
    have he : x = y :=
      Grammar.column_inj (hg.mem_lookaheads_of_predicts hr hp)
        (hg.mem_lookaheads_of_predicts hr' hp') (hx.trans hy.symm)
    exact ⟨r, hr, r', hr', hne, hl, x, hp, he ▸ hp'⟩
  · rintro ⟨r, hr, r', hr', hne, hl, x, hp, hp'⟩ h
    exact hne (h r hr r' hr' hl (g.column x)
      ((hg.mem_triggers_iff_predicts hr).mpr ⟨x, rfl, hp⟩)
      ((hg.mem_triggers_iff_predicts hr').mpr ⟨x, rfl, hp'⟩))

-- Which of the three verdicts a grammar gets.
theorem verdict_iff (hg : g.IsFirstBuild) (hsmall : g.rules.length < 2 ^ 31)
    (options : List Policy) :
    ∃ t, build g.analyse options = .ok t ∧
      ((∃ name nonterminals conflicts,
          t.error? = some (.leftRecursive name nonterminals conflicts)) ↔ g.IsLeftRecursive) ∧
      ((∃ name conflicts, t.error? = some (.ambiguous name conflicts)) ↔
        ¬g.IsLeftRecursive ∧ options.getLast?.getD .strict = .strict ∧ g.HasCommonPredictor) ∧
      (t.error? = none ↔
        ¬g.IsLeftRecursive ∧
          ¬(options.getLast?.getD .strict = .strict ∧ g.HasCommonPredictor)) := by
  obtain ⟨t, hb, -, hpolicy, -⟩ := hg.wellFormed.build_holds hsmall options
  refine ⟨t, hb, ?_⟩
  have hstrict : t.policy = .strict ↔ options.getLast?.getD .strict = .strict := by
    rw [hpolicy, Policy.ofOptions]
  rw [← isLeftRecursive_iff hb hg.wellFormed hsmall, ← hasConflicts_iff hb hg.wellFormed hsmall,
    ← hstrict]
  unfold error?
  cases t.isLeftRecursive with
  | true => simp
  | false =>
      by_cases h : t.hasConflicts = true ∧ t.policy = .strict
      · simp [h.1, h.2]
      · have hno : (t.hasConflicts && decide (t.policy = .strict)) = false := by simpa using h
        have hnot : ¬(t.policy = .strict ∧ t.hasConflicts = true) := fun hc => h ⟨hc.2, hc.1⟩
        simp [hno, hnot]

-- The table for expressions is accepted.
theorem exists_expressionTable :
    ∃ t, build Expression.grammar.analyse [] = .ok t ∧ t.isLeftRecursive = false ∧
      t.error? = none := by
  obtain ⟨t, hb, h⟩ := exists_ok_of_any (x := build Expression.grammar.analyse [])
    (p := fun t => t.isLeftRecursive = false ∧ t.error? = none) (by decide +kernel)
  exact ⟨t, hb, of_decide_eq_true h⟩

-- The grammar for expressions is LL(1).
theorem verdict_expression :
    ¬Expression.grammar.IsLeftRecursive ∧ ¬Expression.grammar.HasCommonPredictor := by
  obtain ⟨t, hb, -, -, hnone⟩ := verdict_iff Expression.isFirstBuild (by decide) []
  obtain ⟨t', hb', -, he⟩ := exists_expressionTable
  rw [hb] at hb'
  cases hb'
  obtain ⟨hl, hc⟩ := hnone.mp he
  exact ⟨hl, fun h => hc ⟨rfl, h⟩⟩

end Table

end Lookahead
