import Lookahead.Proofs.Table.Contents

/-!
The conflicts of a table. Every eligible rule but the first one of its cell is in conflict with the
first one, once, and the conflicts come in order of rules and columns.
-/

namespace Lookahead.Table

-- The conflict of a rule with the first rule of a cell, if that is another one.
def conflictIn? (cell : List Rule) (x : Symbol) (r : Rule) : Option Conflict :=
  match cell with
  | [] => none
  | kept :: later => if r ∈ later then some ⟨r.lhs, x, kept, r⟩ else none

-- The conflict of a rule that is entered into a column of its row.
def conflict? (g : Grammar) (r : Rule) (c : Nat) : Option Conflict :=
  conflictIn? (eligible g.analyse r.lhs c) (g.columnSymbol c) r

variable {g : Grammar} {t : Table} {options : List Policy} {r : Rule}
  {cell rules before rest : List Rule} {placed : List Placement} {x : Symbol} {c : Nat}

theorem conflictIn?_eq_none_iff : conflictIn? cell x r = none ↔ r ∉ cell.tail := by
  cases cell <;> simp [conflictIn?]

-- A cell is free of conflicts if all its rules are one.
theorem conflictIn?_eq_none (hn : cell.Nodup) (h : ∀ r' ∈ cell, r' = r) :
    conflictIn? cell x r = none := by
  rw [conflictIn?_eq_none_iff]
  cases cell with
  | nil => exact List.not_mem_nil
  | cons kept later => exact h kept List.mem_cons_self ▸ (List.nodup_cons.mp hn).1

theorem head?_eq_some_of_conflictIn? (hr : r ∈ cell) (h : conflictIn? cell x r = none) :
    cell.head? = some r := by
  rw [conflictIn?_eq_none_iff] at h
  cases cell with
  | nil => cases hr
  | cons kept later => rw [List.head?_cons, (List.mem_cons.mp hr).resolve_right h]

-- Placements of one rule into different columns do not get in each other's way.
theorem conflictsFrom_map (r : Rule) {cols : List Nat} (hn : cols.Nodup) :
    conflictsFrom g placed (cols.map fun c => (r, c)) =
      cols.flatMap fun c => conflictsAt g placed (r, c) := by
  induction cols generalizing placed with
  | nil => rfl
  | cons c cols ih =>
      obtain ⟨hc, hn⟩ := List.nodup_cons.mp hn
      rw [List.map_cons, conflictsFrom, ih hn, List.flatMap_cons]
      congr 1
      refine List.flatMap_congr fun c' hc' => ?_
      have hne : c ≠ c' := fun he => hc (he ▸ hc')
      simp only [conflictsAt, occupants_append, occupants_singleton, hne, and_false, if_false,
        List.append_nil]

-- The rules in front of another one and those behind it, as far as they are eligible for its cell.
theorem eligible_split (hsplit : g.rules = before ++ r :: rest) (hc : c ∈ triggers g.analyse r) :
    ∃ more, eligible g.analyse r.lhs c =
      occupants (placements g.analyse before) r.lhs c ++ r :: more := by
  have hr : (r.lhs = r.lhs && (triggers g.analyse r).contains c) = true := by
    simpa [IndexSet.contains_iff] using hc
  refine ⟨rest.filter fun r' => r'.lhs = r.lhs && (triggers g.analyse r').contains c, ?_⟩
  show g.rules.filter _ = _
  rw [occupants_placements, hsplit, List.filter_append]
  congr 1
  exact List.filter_cons_of_pos hr

theorem nodup_eligible (hg : g.WellFormed) (i c : Nat) : (eligible g.analyse i c).Nodup :=
  hg.nodup_rules.filter _

theorem conflictsAt_eq_toList (hg : g.WellFormed) (hsplit : g.rules = before ++ r :: rest)
    (hc : c ∈ triggers g.analyse r) :
    conflictsAt g (placements g.analyse before) (r, c) = (conflict? g r c).toList := by
  obtain ⟨more, hcell⟩ := eligible_split hsplit hc
  have hnodup := nodup_eligible hg r.lhs c
  unfold conflictsAt conflict?
  rw [hcell] at hnodup ⊢
  cases hfront : occupants (placements g.analyse before) r.lhs c with
  | nil =>
      -- the rule is the first one of its cell
      rw [hfront, List.nil_append, List.nodup_cons] at hnodup
      simp [conflictIn?, hnodup.1]
  | cons kept later => simp [conflictIn?]

theorem conflict?_eq_none (hc : c ∉ triggers g.analyse r) : conflict? g r c = none :=
  conflictIn?_eq_none_iff.mpr fun h => hc (mem_eligible.mp (List.mem_of_mem_tail h)).2.2

-- The conflicts that arise while a rule is entered.
theorem conflictsFrom_rule (hg : g.WellFormed) (hsplit : g.rules = before ++ r :: rest) :
    conflictsFrom g (placements g.analyse before)
        ((triggers g.analyse r).members.map fun c => (r, c)) =
      (List.range g.columnCount).filterMap (conflict? g r) := by
  have hr : r ∈ g.rules := hsplit ▸ List.mem_append_right before List.mem_cons_self
  have hmembers : (triggers g.analyse r).members =
      (List.range g.columnCount).filter (triggers g.analyse r).contains :=
    IndexSet.members_eq_filter fun c hc => hg.lt_of_mem_triggers hr hc
  calc conflictsFrom g (placements g.analyse before)
        ((triggers g.analyse r).members.map fun c => (r, c))
      = (triggers g.analyse r).members.flatMap fun c => (conflict? g r c).toList := by
        rw [conflictsFrom_map r (triggers g.analyse r).nodup]
        exact List.flatMap_congr fun c hc => conflictsAt_eq_toList hg hsplit hc
    _ = (List.range g.columnCount).filterMap (conflict? g r) := by
        rw [← List.filterMap_eq_flatMap_toList, hmembers, List.filterMap_filter]
        refine List.filterMap_congr fun c _ => ?_
        split
        · rfl
        · rename_i hc
          rw [IndexSet.contains_iff] at hc
          exact (conflict?_eq_none hc).symm

-- Rule by rule, and for each of them column by column.
theorem conflictsFrom_rules (hg : g.WellFormed) (hsplit : g.rules = before ++ rules) :
    conflictsFrom g (placements g.analyse before) (placements g.analyse rules) =
      rules.flatMap fun r => (List.range g.columnCount).filterMap (conflict? g r) := by
  induction rules generalizing before with
  | nil => rfl
  | cons r rules ih =>
      have hnext : placements g.analyse before ++
          ((triggers g.analyse r).members.map fun c => (r, c)) =
            placements g.analyse (before ++ [r]) := by
        simp [placements]
      rw [placements_cons, conflictsFrom_append, conflictsFrom_rule hg hsplit, hnext,
        List.flatMap_cons]
      congr 1
      exact ih (by simpa using hsplit)

theorem conflicts_eq (hb : build g.analyse options = .ok t) (hg : g.WellFormed)
    (hsmall : g.rules.length < 2 ^ 31) :
    t.conflicts =
      g.rules.flatMap fun r => (List.range g.columnCount).filterMap (conflict? g r) := by
  rw [(holds_of_build hb hg hsmall).2.2.2]
  exact conflictsFrom_rules hg (List.nil_append g.rules).symm

-- There are no conflicts if and only if no two rules of a non-terminal have a trigger in common.
theorem conflicts_eq_nil_iff (hb : build g.analyse options = .ok t) (hg : g.WellFormed)
    (hsmall : g.rules.length < 2 ^ 31) :
    t.conflicts = [] ↔ ∀ r ∈ g.rules, ∀ r' ∈ g.rules, r.lhs = r'.lhs →
      ∀ c, c ∈ triggers g.analyse r → c ∈ triggers g.analyse r' → r = r' := by
  simp only [conflicts_eq hb hg hsmall, List.flatMap_eq_nil_iff, List.filterMap_eq_nil_iff,
    List.mem_range]
  constructor
  · intro hnone r hr r' hr' hlhs c hc hc'
    -- both rules come first in their cell
    have hfirst : ∀ x ∈ g.rules, x.lhs = r.lhs → c ∈ triggers g.analyse x →
        (eligible g.analyse r.lhs c).head? = some x := by
      intro x hx hl hcx
      have hfree := hnone x hx c (hg.lt_of_mem_triggers hx hcx)
      rw [conflict?, hl] at hfree
      exact head?_eq_some_of_conflictIn? (mem_eligible.mpr ⟨hx, hl, hcx⟩) hfree
    have he := hfirst r hr rfl hc
    rw [hfirst r' hr' hlhs.symm hc'] at he
    exact (Option.some.inj he).symm
  · intro hunique r hr c _
    by_cases hc : c ∈ triggers g.analyse r
    · refine conflictIn?_eq_none (nodup_eligible hg r.lhs c) fun r' hmem => ?_
      obtain ⟨hr', hlhs, hc'⟩ := mem_eligible.mp hmem
      exact hunique r' hr' r hr hlhs c hc' hc
    · exact conflict?_eq_none hc

end Lookahead.Table
