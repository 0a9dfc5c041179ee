import Lookahead.Analysis
import Lookahead.Proofs.Builder
import Lookahead.Proofs.FixedPoint
import Mathlib.Data.List.Nodup

/-!
Lookahead symbols and their columns. A set of columns that is written down as symbols lists each of
them once, in the order of registration and with the end of input last.
-/

namespace Lookahead

-- Whether a list holds exactly the items with a property, each of them once and in a given order.
structure Enumerates {α : Type} (order l : List α) (P : α → Prop) : Prop where
  sublist : l.Sublist order
  nodup : l.Nodup
  mem_iff : ∀ x, x ∈ l ↔ P x

section Enumerations

variable {α : Type} {order l : List α} {P Q : α → Prop}

theorem Enumerates.congr (h : Enumerates order l P) (hPQ : ∀ x, P x ↔ Q x) :
    Enumerates order l Q :=
  ⟨h.sublist, h.nodup, fun x => (h.mem_iff x).trans (hPQ x)⟩

theorem enumerates_filter (hn : order.Nodup) (p : α → Bool) :
    Enumerates order (order.filter p) fun x => x ∈ order ∧ p x = true :=
  ⟨List.filter_sublist, hn.filter p, fun _ => List.mem_filter⟩

end Enumerations

-- Below a bound, the members of a set are found by looking at all indices.
theorem IndexSet.members_eq_filter {s : IndexSet} {n : Nat} (h : ∀ k ∈ s, k < n) :
    s.members = (List.range n).filter s.contains := by
  have hs : s = ⟨(List.range n).filter s.contains, List.pairwise_lt_range.filter _⟩ := by
    refine IndexSet.ext fun k => ?_
    show k ∈ s ↔ k ∈ (List.range n).filter s.contains
    rw [List.mem_filter, List.mem_range, IndexSet.contains_iff]
    exact ⟨fun hk => ⟨h k hk, hk⟩, And.right⟩
  exact congrArg IndexSet.members hs

namespace Grammar

-- A symbol that strings may be made of when an analysis is asked about them.
def IsSymbol (g : Grammar) (x : Symbol) : Prop := g.Declares x ∨ x = .endOfInput

variable {g : Grammar} {x y : Symbol} {c : Nat}

theorem isTerminal_of_declares (hx : x.isNonterminal = false) (hd : g.Declares x) :
    x.isTerminal = true := by
  cases x with
  | terminal j => rfl
  | nonterminal j => simp [Symbol.isNonterminal] at hx
  | endOfInput => exact hd.elim

theorem isNonterminal_of_isTerminal (hx : x.isTerminal = true) : x.isNonterminal = false := by
  cases x with
  | terminal j => rfl
  | nonterminal j => simp [Symbol.isTerminal] at hx
  | endOfInput => rfl

theorem columnSymbol_of_lt (hc : c < g.terminals.length) : g.columnSymbol c = .terminal c :=
  if_neg (Nat.ne_of_lt hc)

theorem columnSymbol_length (g : Grammar) : g.columnSymbol g.terminals.length = .endOfInput :=
  if_pos rfl

theorem lookaheads_eq_map (g : Grammar) :
    g.lookaheads = (List.range g.columnCount).map g.columnSymbol := by
  rw [columnCount, List.range_succ, List.map_append, List.map_singleton, columnSymbol_length,
    lookaheads]
  congr 1
  refine List.map_congr_left fun c hc => ?_
  rw [columnSymbol_of_lt (List.mem_range.mp hc)]

theorem mem_lookaheads_iff : x ∈ g.lookaheads ↔ x.isNonterminal = false ∧ g.IsSymbol x := by
  cases x with
  | terminal i => simp [lookaheads, IsSymbol, Declares, Symbol.IsAmong, Symbol.isNonterminal]
  | nonterminal i => simp [lookaheads, Symbol.isNonterminal]
  | endOfInput => simp [lookaheads, IsSymbol, Symbol.isNonterminal]

theorem endOfInput_mem_lookaheads (g : Grammar) : .endOfInput ∈ g.lookaheads :=
  mem_lookaheads_iff.mpr ⟨rfl, .inr rfl⟩

theorem column_lt (hx : x ∈ g.lookaheads) : g.column x < g.columnCount := by
  rcases mem_lookaheads_iff.mp hx with ⟨hn, hd | rfl⟩
  · cases x with
    | terminal i => exact Nat.lt_succ_of_lt hd
    | nonterminal i => simp [Symbol.isNonterminal] at hn
    | endOfInput => exact hd.elim
  · exact Nat.lt_succ_self _

-- Symbols and columns correspond to each other.
theorem columnSymbol_column (hx : x ∈ g.lookaheads) : g.columnSymbol (g.column x) = x := by
  rcases mem_lookaheads_iff.mp hx with ⟨hn, hd | rfl⟩
  · cases x with
    | terminal i => exact columnSymbol_of_lt hd
    | nonterminal i => simp [Symbol.isNonterminal] at hn
    | endOfInput => exact hd.elim
  · exact columnSymbol_length g

theorem column_columnSymbol (hc : c < g.columnCount) : g.column (g.columnSymbol c) = c := by
  rcases Nat.lt_succ_iff_lt_or_eq.mp hc with hc | rfl
  · rw [columnSymbol_of_lt hc]
    rfl
  · rw [columnSymbol_length]
    rfl

theorem columnSymbol_mem (hc : c < g.columnCount) : g.columnSymbol c ∈ g.lookaheads := by
  rw [lookaheads_eq_map]
  exact List.mem_map_of_mem (List.mem_range.mpr hc)

theorem column_inj (hx : x ∈ g.lookaheads) (hy : y ∈ g.lookaheads)
    (h : g.column x = g.column y) : x = y := by
  rw [← columnSymbol_column hx, h, columnSymbol_column hy]

theorem nodup_lookaheads (g : Grammar) : g.lookaheads.Nodup := by
  rw [lookaheads_eq_map]
  refine List.Nodup.map_on (fun c hc c' hc' h => ?_) List.nodup_range
  rw [← column_columnSymbol (List.mem_range.mp hc), h,
    column_columnSymbol (List.mem_range.mp hc')]

end Grammar

namespace Analysis

variable {g : Grammar} {s : IndexSet}

theorem symbols_eq_filter (h : ∀ c ∈ s, c < g.columnCount) :
    g.analyse.symbols s = g.lookaheads.filter fun x => s.contains (g.column x) := by
  have hmembers : g.analyse.symbols s = s.members.map g.columnSymbol := rfl
  rw [hmembers, IndexSet.members_eq_filter h, Grammar.lookaheads_eq_map, List.filter_map]
  congr 1
  refine List.filter_congr fun c hc => ?_
  simp only [Function.comp_apply]
  rw [Grammar.column_columnSymbol (List.mem_range.mp hc)]

theorem enumerates_symbols (h : ∀ c ∈ s, c < g.columnCount) :
    Enumerates g.lookaheads (g.analyse.symbols s) fun x => x ∈ g.lookaheads ∧ g.column x ∈ s := by
  rw [symbols_eq_filter h]
  refine (enumerates_filter (Grammar.nodup_lookaheads g) _).congr fun x => ?_
  rw [IndexSet.contains_iff]

end Analysis

end Lookahead
