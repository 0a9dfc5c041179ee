import Lookahead.Proofs.Analysis.Nullable
import Lookahead.Proofs.Analysis.Sets
import Lookahead.Proofs.Grammar.Lookaheads

/-!
FIRST sets are exact: a column belongs to FIRST of a string if and only if the string derives one
that begins with the symbol of the column.
-/

namespace Lookahead

-- Whether a string derives one that begins with a symbol of column `c`.
def Grammar.BeginsWith (g : Grammar) (s : List Symbol) (c : Nat) : Prop :=
  ∃ x rest, x.isNonterminal = false ∧ g.column x = c ∧ g.Derives s (x :: rest)

namespace Grammar

variable {g : Grammar} {s t : List Symbol} {c : Nat}

theorem BeginsWith.of_derives (h : g.Derives s t) (ht : g.BeginsWith t c) : g.BeginsWith s c := by
  obtain ⟨x, rest, hx, hc, hd⟩ := ht
  exact ⟨x, rest, hx, hc, h.trans hd⟩

theorem BeginsWith.append (h : g.BeginsWith s c) (t : List Symbol) : g.BeginsWith (s ++ t) c := by
  obtain ⟨x, rest, hx, hc, hd⟩ := h
  exact ⟨x, rest ++ t, hx, hc, hd.append (.refl t)⟩

theorem beginsWith_append_cases (h : g.BeginsWith (s ++ t) c) :
    g.BeginsWith s c ∨ (g.Derives s [] ∧ g.BeginsWith t c) := by
  obtain ⟨x, rest, hx, hc, hd⟩ := h
  obtain ⟨s', t', he, hs, ht⟩ := hd.append_cases
  cases s' with
  | nil =>
      rw [List.nil_append] at he
      exact .inr ⟨hs, x, rest, hx, hc, he ▸ ht⟩
  | cons y s' =>
      obtain ⟨rfl, -⟩ := List.cons.inj he
      exact .inl ⟨x, s', hx, hc, hs⟩

theorem beginsWith_cons_terminal {x : Symbol} (hx : x.isNonterminal = false) :
    g.BeginsWith (x :: s) c ↔ c = g.column x := by
  constructor
  · rintro ⟨y, rest, -, rfl, hd⟩
    obtain ⟨t, ht, -⟩ := hd.cons_terminal hx
    rw [(List.cons.inj ht).1]
  · rintro rfl
    exact ⟨x, s, hx, rfl, .refl _⟩

-- A non-terminal that derives something other than itself is declared.
theorem WellScoped.lt_of_derives (hg : g.WellScoped) {i : Nat} (hd : g.Derives [.nonterminal i] s)
    (hne : s ≠ [.nonterminal i]) : i < g.nonterminals.length := by
  obtain ⟨r, hr, rfl, -⟩ := hd.rule hne
  exact hg.lhs_lt r hr

-- The terminals of a sentential form are declared.
theorem WellScoped.declares_of_derives (hg : g.WellScoped) {i : Nat} {x : Symbol}
    (hd : g.Derives [.nonterminal i] s) (hx : x.isNonterminal = false) (hs : x ∈ s) :
    g.Declares x := by
  have hall := hd.forall_mem (P := fun x => x.isNonterminal = true ∨ g.Declares x)
    (fun r hr x hx => .inr (hg.rhs_declared r hr x hx)) (by simp [Symbol.isNonterminal])
  exact (hall x hs).resolve_left (by simp [hx])

-- What a non-terminal may begin with is a terminal of the grammar.
theorem WellScoped.lt_of_beginsWith (hg : g.WellScoped) {i : Nat}
    (h : g.BeginsWith [.nonterminal i] c) : c < g.terminals.length := by
  obtain ⟨x, rest, hx, rfl, hd⟩ := h
  have hdecl := hg.declares_of_derives hd hx List.mem_cons_self
  cases x with
  | terminal j => exact hdecl
  | nonterminal j => simp [Symbol.isNonterminal] at hx
  | endOfInput => exact hdecl.elim

-- Terminals that come out of symbols of the grammar are lookaheads.
theorem WellScoped.mem_lookaheads (hg : g.WellScoped) (hs : ∀ x ∈ s, g.IsSymbol x)
    (hd : g.Derives s t) {x : Symbol} (hx : x.isNonterminal = false) (ht : x ∈ t) :
    x ∈ g.lookaheads := by
  have hall := hd.forall_mem (fun r hr x hx => .inl (hg.rhs_declared r hr x hx)) hs
  exact mem_lookaheads_iff.mpr ⟨hx, hall x ht⟩

theorem WellScoped.lt_columnCount_of_beginsWith (hg : g.WellScoped) (hs : ∀ x ∈ s, g.IsSymbol x)
    (h : g.BeginsWith s c) : c < g.columnCount := by
  obtain ⟨x, rest, hx, rfl, hd⟩ := h
  exact column_lt (hg.mem_lookaheads hs hd hx List.mem_cons_self)

-- A column stands for one lookahead only.
theorem WellScoped.beginsWith_column_iff (hg : g.WellScoped) (hs : ∀ x ∈ s, g.IsSymbol x)
    {x : Symbol} (hx : x ∈ g.lookaheads) :
    g.BeginsWith s (g.column x) ↔ ∃ rest, g.Derives s (x :: rest) := by
  constructor
  · rintro ⟨y, rest, hy, hc, hd⟩
    have hmem := hg.mem_lookaheads hs hd hy List.mem_cons_self
    obtain rfl := column_inj hmem hx hc
    exact ⟨rest, hd⟩
  · rintro ⟨rest, hd⟩
    exact ⟨x, rest, (mem_lookaheads_iff.mp hx).1, rfl, hd⟩

end Grammar

namespace Analysis

variable {g : Grammar} {marks : List Bool} {first : List IndexSet} {s t : List Symbol} {c : Nat}

theorem firstOf_snd (s : List Symbol) : (firstOf g marks first s).2 = s.all (isNullable marks) := by
  induction s with
  | nil => rfl
  | cons x rest ih =>
      cases x with
      | nonterminal i =>
          by_cases h : marks.getD i false = true
          · simp only [firstOf, h, if_true, ih, List.all_cons, isNullable, Bool.true_and]
          · rw [Bool.not_eq_true] at h
            simp only [firstOf, h, List.all_cons, isNullable, Bool.false_eq_true, if_false,
              Bool.false_and]
      | terminal i => rfl
      | endOfInput => rfl

theorem mem_firstOf_cons_nonterminal {i : Nat} :
    c ∈ (firstOf g marks first (.nonterminal i :: s)).1 ↔
      c ∈ setOf first i ∨ (marks.getD i false = true ∧ c ∈ (firstOf g marks first s).1) := by
  by_cases h : marks.getD i false = true
  · simp only [firstOf, h, if_true, IndexSet.mem_union, true_and]
  · simp only [firstOf, h, Bool.false_eq_true, if_false, false_and, or_false]

theorem mem_firstOf_cons_terminal {x : Symbol} (hx : x.isNonterminal = false) :
    c ∈ (firstOf g marks first (x :: s)).1 ↔ c = g.column x := by
  cases x with
  | nonterminal i => simp [Symbol.isNonterminal] at hx
  | terminal i => simp [firstOf, IndexSet.mem_insert]
  | endOfInput => simp [firstOf, IndexSet.mem_insert]

theorem mem_firstOf_append :
    c ∈ (firstOf g marks first (s ++ t)).1 ↔ c ∈ (firstOf g marks first s).1 ∨
      (s.all (isNullable marks) = true ∧ c ∈ (firstOf g marks first t).1) := by
  induction s with
  | nil => simp [firstOf]
  | cons x rest ih =>
      rw [List.cons_append]
      cases x with
      | nonterminal i =>
          simp only [mem_firstOf_cons_nonterminal, ih, List.all_cons, isNullable, Bool.and_eq_true]
          tauto
      | terminal i =>
          rw [mem_firstOf_cons_terminal rfl, mem_firstOf_cons_terminal rfl]
          simp [isNullable]
      | endOfInput =>
          rw [mem_firstOf_cons_terminal rfl, mem_firstOf_cons_terminal rfl]
          simp [isNullable]

-- FIRST of a string is justified as soon as marks and sets are.
theorem beginsWith_of_mem_firstOf (hm : MarksSound g marks)
    (hf : SetsSound (fun i c => g.BeginsWith [.nonterminal i] c) first)
    (h : c ∈ (firstOf g marks first s).1) : g.BeginsWith s c := by
  induction s with
  | nil => simp [firstOf] at h
  | cons x rest ih =>
      cases x with
      | nonterminal i =>
          rcases mem_firstOf_cons_nonterminal.mp h with h | ⟨hi, h⟩
          · exact (hf i c h).append rest
          · have hd := (hm i hi).append (.refl rest)
            exact .of_derives hd (ih h)
      | terminal i =>
          rw [mem_firstOf_cons_terminal rfl] at h
          exact (Grammar.beginsWith_cons_terminal rfl).mpr h
      | endOfInput =>
          rw [mem_firstOf_cons_terminal rfl] at h
          exact (Grammar.beginsWith_cons_terminal rfl).mpr h

theorem firstStep_grows (g : Grammar) (marks : List Bool) (first : List IndexSet) (r : Rule) :
    Grows first (firstStep g marks first r) :=
  grows_modify_union first r.lhs _

theorem firstStep_sound (hm : MarksSound g marks)
    (hf : SetsSound (fun i c => g.BeginsWith [.nonterminal i] c) first) {r : Rule}
    (hr : r ∈ g.rules) :
    SetsSound (fun i c => g.BeginsWith [.nonterminal i] c) (firstStep g marks first r) := by
  intro i c h
  rcases mem_setOf_modify_union.mp h with h | ⟨rfl, -, h⟩
  · exact hf i c h
  · exact .of_derives (Grammar.derives_rule hr) (beginsWith_of_mem_firstOf hm hf h)

-- FIRST sets of an analysed grammar are justified and closed under the rules.
theorem analyse_first (hg : g.WellScoped) :
    g.analyse.first.length = g.nonterminals.length ∧
      SetsSound (fun i c => g.BeginsWith [.nonterminal i] c) g.analyse.first ∧
      ∀ r ∈ g.rules, firstStep g g.analyse.nullable g.analyse.first r = g.analyse.first := by
  have hm := (analyse_nullable g).2.1
  apply fixedPoint_sets (firstStep g g.analyse.nullable) g.columnCount
  · intro i c h
    exact Nat.lt_succ_of_lt (hg.lt_of_beginsWith h)
  · exact firstStep_grows g _
  · exact fun first r hr hf => firstStep_sound hm hf hr
  · simp
  · intro i c h
    simp at h

end Analysis

namespace Grammar.WellScoped

open Analysis

variable {g : Grammar} {s : List Symbol} {c : Nat}

theorem first_closed (hg : g.WellScoped) {r : Rule} (hr : r ∈ g.rules)
    (h : c ∈ (g.analyse.firstColumns r.rhs).1) : c ∈ setOf g.analyse.first r.lhs := by
  obtain ⟨hlen, -, hstep⟩ := analyse_first hg
  rw [← hstep r hr]
  exact mem_setOf_modify_union.mpr (.inr ⟨rfl, hlen ▸ hg.lhs_lt r hr, h⟩)

-- Replacing a right-hand side by its left-hand side loses no column.
theorem mem_firstColumns_fold (hg : g.WellScoped) {r : Rule} (hr : r ∈ g.rules) {u v : List Symbol}
    (h : c ∈ (g.analyse.firstColumns (u ++ r.rhs ++ v)).1) :
    c ∈ (g.analyse.firstColumns (u ++ .nonterminal r.lhs :: v)).1 := by
  simp only [firstColumns, List.append_assoc, mem_firstOf_append] at h ⊢
  rw [mem_firstOf_cons_nonterminal]
  rcases h with h | ⟨hu, h | ⟨hn, h⟩⟩
  · exact .inl h
  · exact .inr ⟨hu, .inl (hg.first_closed hr h)⟩
  · exact .inr ⟨hu, .inr ⟨hg.marks_closed hr hn, h⟩⟩

theorem mem_firstColumns_iff (hg : g.WellScoped) :
    c ∈ (g.analyse.firstColumns s).1 ↔ g.BeginsWith s c := by
  constructor
  · exact beginsWith_of_mem_firstOf (analyse_nullable g).2.1 (analyse_first hg).2.1
  · rintro ⟨x, rest, hx, rfl, hd⟩
    induction hd using Relation.ReflTransGen.head_induction_on with
    | refl => exact (mem_firstOf_cons_terminal hx).mpr rfl
    | head hs _ ih =>
        cases hs with
        | rule r hr u v => exact hg.mem_firstColumns_fold hr ih

theorem firstColumns_snd_iff (hg : g.WellScoped) :
    (g.analyse.firstColumns s).2 = true ↔ g.Derives s [] := by
  rw [firstColumns, firstOf_snd]
  exact hg.all_isNullable_iff

end Grammar.WellScoped

end Lookahead
