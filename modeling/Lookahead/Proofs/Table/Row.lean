import Lookahead.Proofs.Matrix.Row
import Lookahead.Proofs.Table.Verdict
import Mathlib.Data.List.ProdSigma

/-!
Rows of tables. The row of a non-terminal lists the lookaheads for which some rule is eligible, that
is, the predictors of its rules, and the size of a table is the number of such cells.
-/

namespace Lookahead

namespace Table

variable {g : Grammar} {a : Analysis} {m m' : Matrix} {t : Table} {r : Rule} {rules : List Rule}
  {found : List Conflict} {options : List Policy} {i : Nat} {x : Symbol}

theorem cellChange_eq_ok {change : Except Matrix.OutOfRange Matrix}
    (h : cellChange change = .ok m) : change = .ok m := by
  cases change with
  | error e => cases h
  | ok m =>
      cases h
      rfl

theorem isInside_enter (hin : m.IsInside) {c : Nat} (h : enter g r m c = .ok (m', found)) :
    m'.IsInside := by
  unfold enter at h
  dsimp only at h
  split at h
  · obtain ⟨m₁, hset, hm⟩ := bind_eq_ok h
    cases hm
    have hupdate : m.update r.lhs c (number r)
        (fun e => { e with first := number r, second := m.null }) = .ok m' := cellChange_eq_ok hset
    refine hin.update ?_ hupdate
    exact fun _ => ⟨rfl, rfl⟩
  · obtain ⟨kept, -, h⟩ := bind_eq_ok h
    obtain ⟨m₁, hadd, hm⟩ := bind_eq_ok h
    cases hm
    have hupdate : m.update r.lhs c (number r) (Matrix.fill m.null (number r)) = .ok m' :=
      cellChange_eq_ok hadd
    exact hin.update (Matrix.fill_position m.null (number r)) hupdate

theorem isInside_enterAll (hin : m.IsInside) {cols : List Nat}
    (h : enterAll g r m cols = .ok (m', found)) : m'.IsInside := by
  induction cols generalizing m found with
  | nil =>
      cases h
      exact hin
  | cons c cols ih =>
      obtain ⟨⟨m₁, here⟩, hc, h⟩ := bind_eq_ok h
      obtain ⟨⟨m₂, later⟩, hcols, h⟩ := bind_eq_ok h
      cases h
      exact ih (isInside_enter hin hc) hcols

theorem isInside_enterRules (hin : m.IsInside) (h : enterRules a m rules = .ok (m', found)) :
    m'.IsInside := by
  induction rules generalizing m found with
  | nil =>
      cases h
      exact hin
  | cons r rules ih =>
      obtain ⟨⟨m₁, here⟩, hr, h⟩ := bind_eq_ok h
      obtain ⟨⟨m₂, later⟩, hrules, h⟩ := bind_eq_ok h
      cases h
      exact ih (isInside_enterAll hin hr) hrules

theorem isInside_of_build (hb : build a options = .ok t) : t.matrix.IsInside := by
  obtain ⟨⟨m, found⟩, hm, ht⟩ := bind_eq_ok hb
  cases ht
  exact isInside_enterRules (m := .empty _ _ _) (fun e he => nomatch he) hm

-- The positions of the entries are the cells with an eligible rule.
theorem exists_entry_iff (hb : build g.analyse options = .ok t) (hg : g.WellFormed)
    (hsmall : g.rules.length < 2 ^ 31) {i c : Nat} :
    (∃ e ∈ t.matrix.entries.toList, e.row = i ∧ e.col = c) ↔ eligible g.analyse i c ≠ [] := by
  have hh := (holds_of_build hb hg hsmall).2.2.1
  have hentry : t.matrix.entry? i c = entryFor i c (eligible g.analyse i c) :=
    (hh.entry i c).trans (congrArg (entryFor i c) (occupants_eq_eligible g.analyse i c))
  constructor
  · rintro ⟨e, he, hi, hc⟩ hnone
    obtain ⟨e', he'⟩ := Matrix.exists_entry_eq_some hh.sorted he
    rw [hi, hc, hentry, hnone] at he'
    cases he'
  · intro hne
    obtain ⟨e, he⟩ : ∃ e, entryFor i c (eligible g.analyse i c) = some e := by
      match eligible g.analyse i c, hne with
      | [_], _ => exact ⟨_, rfl⟩
      | _ :: _ :: _, _ => exact ⟨_, rfl⟩
    exact ⟨e, Matrix.mem_of_entry_eq_some (hentry.trans he)⟩

theorem lt_of_eligible_ne_nil (hg : g.WellFormed) {i c : Nat} (h : eligible g.analyse i c ≠ []) :
    c < g.columnCount := by
  obtain ⟨r, hr⟩ := List.exists_mem_of_ne_nil _ h
  obtain ⟨hr, -, htrigger⟩ := mem_eligible.mp hr
  exact hg.lt_of_mem_triggers hr htrigger

theorem mem_rowColumns_iff (hb : build g.analyse options = .ok t) (hg : g.WellFormed)
    (hsmall : g.rules.length < 2 ^ 31) {i c : Nat} :
    (∃ e ∈ t.matrix.row i, e.col.toNat = c) ↔ eligible g.analyse i c ≠ [] := by
  have hs := (holds_of_build hb hg hsmall).2.2.1.sorted
  have hin := isInside_of_build hb
  rw [← exists_entry_iff hb hg hsmall]
  constructor
  · rintro ⟨e, he, rfl⟩
    obtain ⟨he, hi⟩ := (Matrix.mem_row_iff hs hin).mp he
    exact ⟨e, he, hi, (Int.toNat_of_nonneg (hin e he).2.1).symm⟩
  · rintro ⟨e, he, hi, hc⟩
    exact ⟨e, (Matrix.mem_row_iff hs hin).mpr ⟨he, hi⟩, by rw [hc, Int.toNat_natCast]⟩

-- The row of a non-terminal, in order of columns.
theorem row_eq (hb : build g.analyse options = .ok t) (hg : g.WellFormed)
    (hsmall : g.rules.length < 2 ^ 31) (i : Nat) :
    t.row (.nonterminal i) =
      g.lookaheads.filter fun x => !(eligible g.analyse i (g.column x)).isEmpty := by
  have hs := (holds_of_build hb hg hsmall).2.2.1.sorted
  let cols : IndexSet := ⟨_, Matrix.ascending_row (i := i) hs (isInside_of_build hb)⟩
  have hmem : ∀ c, c ∈ cols ↔ eligible g.analyse i c ≠ [] := fun c => by
    rw [← mem_rowColumns_iff hb hg hsmall, ← IndexSet.mem_members, List.mem_map]
  have hrow : t.row (.nonterminal i) = g.analyse.symbols cols := by
    rw [row, grammar_of_build hb hg hsmall, Analysis.symbols, List.map_map]
    rfl
  rw [hrow, Analysis.symbols_eq_filter fun c hc => lt_of_eligible_ne_nil hg ((hmem c).mp hc)]
  refine List.filter_congr fun x _ => ?_
  rw [Bool.eq_iff_iff, IndexSet.contains_iff, hmem]
  simp

-- The lookaheads that the row of a non-terminal lists.
theorem mem_row_iff (hb : build g.analyse options = .ok t) (hg : g.WellFormed)
    (hsmall : g.rules.length < 2 ^ 31) :
    x ∈ t.row (.nonterminal i) ↔ ∃ r ∈ g.rules, r.lhs = i ∧ g.Predicts x r := by
  have hcell : x ∈ t.row (.nonterminal i) ↔
      x ∈ g.lookaheads ∧ ∃ r, r ∈ eligible g.analyse i (g.column x) := by
    rw [row_eq hb hg hsmall, List.mem_filter]
    simp [List.eq_nil_iff_forall_not_mem]
  rw [hcell]
  constructor
  · rintro ⟨hx, r, hr⟩
    obtain ⟨hr, hlhs, htrigger⟩ := mem_eligible.mp hr
    exact ⟨r, hr, hlhs, (hg.column_mem_triggers_iff hr hx).mp htrigger⟩
  · rintro ⟨r, hr, hlhs, hpredicts⟩
    have hx := hg.mem_lookaheads_of_predicts hr hpredicts
    exact ⟨hx, r, mem_eligible.mpr ⟨hr, hlhs, (hg.column_mem_triggers_iff hr hx).mpr hpredicts⟩⟩

-- The cell that an entry belongs to.
def cellOf (g : Grammar) (e : Entry) : Nat × Symbol :=
  (e.row.toNat, g.columnSymbol e.col.toNat)

-- Different entries belong to different cells.
theorem nodup_cells (hs : m.IsSorted) (hin : m.IsInside) (hcols : m.cols = g.columnCount) :
    (m.entries.toList.map (cellOf g)).Nodup := by
  rw [List.Nodup, List.pairwise_map]
  refine hs.imp_of_mem fun {e e'} he he' hlt hsame => ?_
  obtain ⟨⟨hr, -⟩, hc, hc'⟩ := hin e he
  obtain ⟨⟨hr', -⟩, hd, hd'⟩ := hin e' he'
  obtain ⟨hrow, hsymbol⟩ := Prod.mk.inj hsame
  have hcol := congrArg g.column hsymbol
  rw [Grammar.column_columnSymbol (by omega), Grammar.column_columnSymbol (by omega)] at hcol
  rw [Entry.isBefore_iff] at hlt
  omega

theorem mem_cells_iff (hb : build g.analyse options = .ok t) (hg : g.WellFormed)
    (hsmall : g.rules.length < 2 ^ 31) :
    (i, x) ∈ t.matrix.entries.toList.map (cellOf g) ↔
      (i < g.nonterminals.length ∧ x ∈ g.lookaheads) ∧
        eligible g.analyse i (g.column x) ≠ [] := by
  have hh := (holds_of_build hb hg hsmall).2.2.1
  have hrows := hh.rows
  have hcols := hh.cols
  rw [List.mem_map, ← exists_entry_iff hb hg hsmall]
  constructor
  · rintro ⟨e, he, hcell⟩
    obtain ⟨⟨hr, hr'⟩, hc, hc'⟩ := isInside_of_build hb e he
    obtain ⟨rfl, rfl⟩ := Prod.mk.inj hcell
    have hcol : e.col.toNat < g.columnCount := by omega
    rw [Grammar.column_columnSymbol hcol]
    exact ⟨⟨by omega, Grammar.columnSymbol_mem hcol⟩, e, he, by omega, by omega⟩
  · rintro ⟨⟨-, hx⟩, e, he, hi, hc⟩
    refine ⟨e, he, ?_⟩
    simp only [cellOf, hi, hc, Int.toNat_natCast, Grammar.columnSymbol_column hx]

-- The number of entries is the number of cells with an eligible rule.
theorem size_eq (hb : build g.analyse options = .ok t) (hg : g.WellFormed)
    (hsmall : g.rules.length < 2 ^ 31) :
    t.size = ((List.range g.nonterminals.length ×ˢ g.lookaheads).filter fun p =>
      !(eligible g.analyse p.1 (g.column p.2)).isEmpty).length := by
  have hh := (holds_of_build hb hg hsmall).2.2.1
  have hnodup := nodup_cells hh.sorted (isInside_of_build hb) hh.cols
  have hpairs : (List.range g.nonterminals.length ×ˢ g.lookaheads).Nodup :=
    List.nodup_range.product (Grammar.nodup_lookaheads g)
  have hperm := (List.perm_ext_iff_of_nodup hnodup (hpairs.filter fun p =>
    !(eligible g.analyse p.1 (g.column p.2)).isEmpty)).mpr fun ⟨i, x⟩ => by
      rw [mem_cells_iff hb hg hsmall, List.mem_filter, List.mem_product, List.mem_range]
      simp
  rw [← hperm.length_eq, List.length_map]
  exact Array.length_toList.symm

end Table

end Lookahead
