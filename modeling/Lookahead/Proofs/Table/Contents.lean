import Lookahead.Proofs.Analysis.Follow
import Lookahead.Proofs.Matrix
import Lookahead.Table.Basic

/-!
What the table of a well-formed grammar holds: the look-up for a non-terminal and a column finds the
first rule that is eligible there, and the cell shows the first two of them.
-/

namespace Lookahead

namespace Table

def number (r : Rule) : Int32 := Int32.ofNat r.serial

-- A rule to be entered into a column of its row.
abbrev Placement := Rule × Nat

-- All placements of rules, in the order in which they are made.
def placements (a : Analysis) (rules : List Rule) : List Placement :=
  rules.flatMap fun r => (triggers a r).members.map fun c => (r, c)

-- The rules placed into one cell, in order.
def occupants (placed : List Placement) (i c : Nat) : List Rule :=
  (placed.filter fun p => p.1.lhs = i ∧ p.2 = c).map Prod.fst

-- What a cell holds for a rule, or for the lack of one.
def cellNumber (r : Option Rule) : Int32 := (r.map number).getD Matrix.defaultNull

def entryFor (i c : Nat) : List Rule → Option Entry
  | [] => none
  | [r] => some ⟨i, c, number r, Matrix.defaultNull⟩
  | r :: r' :: _ => some ⟨i, c, number r, number r'⟩

def conflictsAt (g : Grammar) (placed : List Placement) (p : Placement) : List Conflict :=
  match occupants placed p.1.lhs p.2 with
  | [] => []
  | kept :: _ => [⟨p.1.lhs, g.columnSymbol p.2, kept, p.1⟩]

-- The conflicts that arise when more rules are placed.
def conflictsFrom (g : Grammar) : (placed : List Placement) → List Placement → List Conflict
  | _, [] => []
  | placed, p :: rest => conflictsAt g placed p ++ conflictsFrom g (placed ++ [p]) rest

-- A matrix that holds the placed rules: the first two for every cell.
structure Holds (g : Grammar) (m : Matrix) (placed : List Placement) : Prop where
  sorted : m.IsSorted
  rows : m.rows = g.nonterminals.length
  cols : m.cols = g.columnCount
  null : m.null = Matrix.defaultNull
  rules : ∀ p ∈ placed, p.1 ∈ g.rules
  entry : ∀ i c : Nat, m.entry? i c = entryFor i c (occupants placed i c)

variable {g : Grammar} {placed : List Placement} {i c : Nat}

theorem occupants_append (placed more : List Placement) (i c : Nat) :
    occupants (placed ++ more) i c = occupants placed i c ++ occupants more i c := by
  simp [occupants]

theorem occupants_singleton (p : Placement) (i c : Nat) :
    occupants [p] i c = if p.1.lhs = i ∧ p.2 = c then [p.1] else [] := by
  unfold occupants
  by_cases h : p.1.lhs = i ∧ p.2 = c <;> simp [h]

theorem placements_cons (a : Analysis) (r : Rule) (rules : List Rule) :
    placements a (r :: rules) =
      ((triggers a r).members.map fun c => (r, c)) ++ placements a rules := rfl

theorem conflictsFrom_append (g : Grammar) (placed first second : List Placement) :
    conflictsFrom g placed (first ++ second) =
      conflictsFrom g placed first ++ conflictsFrom g (placed ++ first) second := by
  induction first generalizing placed with
  | nil => simp [conflictsFrom]
  | cons p first ih =>
      rw [List.cons_append, conflictsFrom, conflictsFrom, ih]
      simp only [List.append_assoc, List.singleton_append]

end Table

namespace Grammar.WellFormed

open Table

variable {g : Grammar} {r : Rule}

theorem getElem?_serial (hg : g.WellFormed) (hr : r ∈ g.rules) : g.rules[r.serial]? = some r := by
  obtain ⟨i, hi⟩ := List.mem_iff_getElem?.mp hr
  rw [hg.serial_eq i r hi]
  exact hi

theorem toInt_number (hg : g.WellFormed) (hsmall : g.rules.length < 2 ^ 31) (hr : r ∈ g.rules) :
    (number r).toInt = r.serial := by
  obtain ⟨hlt, -⟩ := List.getElem?_eq_some_iff.mp (hg.getElem?_serial hr)
  exact Int32.toInt_ofNat_of_lt (by omega)

theorem number_ne_null (hg : g.WellFormed) (hsmall : g.rules.length < 2 ^ 31) (hr : r ∈ g.rules) :
    number r ≠ Matrix.defaultNull := by
  intro he
  have hn := hg.toInt_number hsmall hr
  have hd : Matrix.defaultNull.toInt = -2147483648 := by decide
  rw [he, hd] at hn
  omega

theorem ruleNumbered_number (hg : g.WellFormed) (hsmall : g.rules.length < 2 ^ 31)
    (hr : r ∈ g.rules) : ruleNumbered g (number r) = .ok r := by
  unfold ruleNumbered
  rw [hg.toInt_number hsmall hr]
  simp only [rule?, hg.getElem?_serial hr]

end Grammar.WellFormed

namespace Table

variable {g : Grammar} {m : Matrix} {placed : List Placement} {r : Rule} {c : Nat}

-- A cell holds the numbers of the first two rules.
theorem Holds.values_eq (h : Holds g m placed) (i c : Nat) :
    m.values i c =
      (cellNumber (occupants placed i c)[0]?, cellNumber (occupants placed i c)[1]?) := by
  unfold Matrix.values
  rw [h.entry]
  match occupants placed i c with
  | [] => exact congrArg₂ Prod.mk h.null h.null
  | [_] => rfl
  | _ :: _ :: _ => rfl

theorem Holds.value_eq (h : Holds g m placed) (i c : Nat) :
    m.value i c = cellNumber (occupants placed i c).head? := by
  rw [Matrix.value, h.values_eq, List.head?_eq_getElem?]

theorem Holds.mem_rules (h : Holds g m placed) {i c : Nat} (hr : r ∈ occupants placed i c) :
    r ∈ g.rules := by
  obtain ⟨p, hp, rfl⟩ := List.mem_map.mp hr
  exact h.rules p (List.mem_of_mem_filter hp)

-- Entering one more rule, from what the change of the matrix does to the cell.
theorem Holds.update (h : Holds g m placed) (hr : r ∈ g.rules)
    (hlhs : r.lhs < g.nonterminals.length) (hc : c < g.columnCount) (change : Entry → Entry)
    (hchange : ∀ e, (change e).row = e.row ∧ (change e).col = e.col)
    (hcell : some ((entryFor r.lhs c (occupants placed r.lhs c)).elim
        ⟨r.lhs, c, number r, Matrix.defaultNull⟩ change) =
      entryFor r.lhs c (occupants placed r.lhs c ++ [r])) :
    ∃ m', m.update r.lhs c (number r) change = .ok m' ∧ Holds g m' (placed ++ [(r, c)]) := by
  have hrow : (0 : Int) ≤ r.lhs ∧ (r.lhs : Int) < m.rows := by
    rw [h.rows]
    omega
  have hcol : (0 : Int) ≤ c ∧ (c : Int) < m.cols := by
    rw [h.cols]
    omega
  obtain ⟨m', hm, hs, hrows, hcols, hnull, hentry⟩ :=
    Matrix.update_eq_ok h.sorted hrow hcol (number r) hchange
  refine ⟨m', hm, hs, hrows.trans h.rows, hcols.trans h.cols, hnull.trans h.null, ?_, ?_⟩
  · intro p hp
    rcases List.mem_append.mp hp with hp | hp
    · exact h.rules p hp
    · rw [List.mem_singleton.mp hp]
      exact hr
  · intro i c'
    rw [hentry, h.entry, h.entry, h.null, occupants_append, occupants_singleton]
    by_cases he : r.lhs = i ∧ c = c'
    · obtain ⟨rfl, rfl⟩ := he
      simpa using hcell
    · have hne : ¬((i : Int) = r.lhs ∧ (c' : Int) = c) := by omega
      rw [if_neg hne, if_neg he, List.append_nil]

theorem Holds.enter (h : Holds g m placed) (hg : g.WellFormed) (hsmall : g.rules.length < 2 ^ 31)
    (hr : r ∈ g.rules) (hc : c < g.columnCount) :
    ∃ m', enter g r m c = .ok (m', conflictsAt g placed (r, c)) ∧
      Holds g m' (placed ++ [(r, c)]) := by
  have hlhs := hg.lhs_lt r hr
  have hv := h.value_eq r.lhs c
  unfold Table.enter
  cases hocc : occupants placed r.lhs c with
  | nil =>
      obtain ⟨m', hm, hh⟩ := h.update hr hlhs hc
        (fun e => { e with first := number r, second := m.null })
        (fun _ => ⟨rfl, rfl⟩) (by rw [hocc]; rfl)
      have hnull : m.value r.lhs c = m.null := by rw [hv, hocc, h.null]; rfl
      have hset : m.set r.lhs c (Int32.ofNat r.serial) = .ok m' := hm
      refine ⟨m', ?_, hh⟩
      simp only [hnull, if_true, hset, conflictsAt, hocc]
      rfl
  | cons kept rest =>
      have hkept : kept ∈ g.rules := h.mem_rules (i := r.lhs) (c := c) (by simp [hocc])
      have hkeptnull := hg.number_ne_null hsmall hkept
      have hvalue : m.value r.lhs c = number kept := by rw [hv, hocc]; rfl
      have hnull : ¬number kept = m.null := by rw [h.null]; exact hkeptnull
      obtain ⟨m', hm, hh⟩ := h.update hr hlhs hc (Matrix.fill m.null (number r))
        (Matrix.fill_position m.null (number r)) (by
          rw [hocc, h.null]
          cases rest with
          | nil => simp [entryFor, Matrix.fill, hkeptnull]
          | cons second rest =>
              have hsecond : second ∈ g.rules :=
                h.mem_rules (i := r.lhs) (c := c) (by simp [hocc])
              simp [entryFor, Matrix.fill, hkeptnull, hg.number_ne_null hsmall hsecond])
      have hadd : m.add r.lhs c (Int32.ofNat r.serial) = .ok m' := hm
      refine ⟨m', ?_, hh⟩
      simp only [hvalue, hnull, if_false, hg.ruleNumbered_number hsmall hkept, hadd, conflictsAt,
        hocc]
      rfl

theorem Holds.enterAll (h : Holds g m placed) (hg : g.WellFormed)
    (hsmall : g.rules.length < 2 ^ 31) (hr : r ∈ g.rules) {cols : List Nat}
    (hcols : ∀ c ∈ cols, c < g.columnCount) :
    ∃ m', enterAll g r m cols = .ok (m', conflictsFrom g placed (cols.map fun c => (r, c))) ∧
      Holds g m' (placed ++ cols.map fun c => (r, c)) := by
  induction cols generalizing m placed with
  | nil => exact ⟨m, rfl, by simpa using h⟩
  | cons c cols ih =>
      obtain ⟨m₁, he, h₁⟩ := h.enter hg hsmall hr (hcols c (by simp))
      obtain ⟨m₂, hall, h₂⟩ := ih h₁ (fun c hc => hcols c (by simp [hc]))
      refine ⟨m₂, ?_, by simpa using h₂⟩
      rw [Table.enterAll, he]
      show (Table.enterAll g r m₁ cols >>= fun x =>
        pure (x.1, conflictsAt g placed (r, c) ++ x.2)) = _
      rw [hall]
      rfl

theorem Holds.enterRules {a : Analysis} {m : Matrix} {placed : List Placement}
    (h : Holds a.grammar m placed) (hg : a.grammar.WellFormed)
    (hsmall : a.grammar.rules.length < 2 ^ 31) {rules : List Rule}
    (hrules : ∀ r ∈ rules, r ∈ a.grammar.rules)
    (hcols : ∀ r ∈ rules, ∀ c ∈ triggers a r, c < a.grammar.columnCount) :
    ∃ m', enterRules a m rules =
        .ok (m', conflictsFrom a.grammar placed (placements a rules)) ∧
      Holds a.grammar m' (placed ++ placements a rules) := by
  induction rules generalizing m placed with
  | nil => exact ⟨m, rfl, by simpa [placements] using h⟩
  | cons r rules ih =>
      obtain ⟨m₁, he, h₁⟩ := h.enterAll hg hsmall (hrules r (by simp)) (hcols r (by simp))
      obtain ⟨m₂, hall, h₂⟩ := ih h₁ (fun r hr => hrules r (by simp [hr]))
        (fun r hr => hcols r (by simp [hr]))
      refine ⟨m₂, ?_, by simpa [placements] using h₂⟩
      rw [Table.enterRules, he, placements_cons, conflictsFrom_append]
      show (Table.enterRules a m₁ rules >>= fun x => pure (x.1, _ ++ x.2)) = _
      rw [hall]
      rfl

-- The rules for a non-terminal that have a column among their triggers, in order.
def eligible (a : Analysis) (i c : Nat) : List Rule :=
  a.grammar.rules.filter fun r => r.lhs = i && (triggers a r).contains c

theorem mem_eligible {a : Analysis} {i c : Nat} :
    r ∈ eligible a i c ↔ r ∈ a.grammar.rules ∧ r.lhs = i ∧ c ∈ triggers a r := by
  simp [eligible, IndexSet.contains_iff]

-- A rule placed into different columns is in each of their cells once.
theorem occupants_map (r : Rule) {cols : List Nat} (hn : cols.Nodup) (i c : Nat) :
    occupants (cols.map fun c => (r, c)) i c = if r.lhs = i ∧ c ∈ cols then [r] else [] := by
  induction cols with
  | nil => simp [occupants]
  | cons c' cols ih =>
      obtain ⟨hc', hn⟩ := List.nodup_cons.mp hn
      rw [List.map_cons, ← List.singleton_append, occupants_append, occupants_singleton, ih hn]
      by_cases he : c' = c
      · subst he
        by_cases hi : r.lhs = i <;> simp [hi, hc']
      · simp [he, Ne.symm he]

theorem occupants_placements (a : Analysis) (rules : List Rule) (i c : Nat) :
    occupants (placements a rules) i c =
      rules.filter fun r => r.lhs = i && (triggers a r).contains c := by
  induction rules with
  | nil => rfl
  | cons r rules ih =>
      rw [placements_cons, occupants_append, occupants_map r (triggers a r).nodup, ih,
        List.filter_cons]
      by_cases h : r.lhs = i ∧ c ∈ (triggers a r).members
      · have hb : (r.lhs = i && (triggers a r).contains c) = true := by
          simpa [IndexSet.contains_iff, IndexSet.mem_members] using h
        rw [if_pos h, if_pos hb]
        rfl
      · have hb : ¬(r.lhs = i && (triggers a r).contains c) = true := by
          simpa [IndexSet.contains_iff, IndexSet.mem_members] using h
        rw [if_neg h, if_neg hb]
        rfl

theorem occupants_eq_eligible (a : Analysis) (i c : Nat) :
    occupants (placements a a.grammar.rules) i c = eligible a i c :=
  occupants_placements a a.grammar.rules i c

end Table

namespace Grammar.WellFormed

open Table

variable {g : Grammar} {r : Rule} {i c : Nat}

-- What it takes for a column to be one of the triggers of a rule.
theorem mem_triggers_iff (hg : g.WellFormed) :
    c ∈ triggers g.analyse r ↔
      g.BeginsWith r.rhs c ∨ (g.Derives r.rhs [] ∧ g.FollowedBy r.lhs c) := by
  have hn := hg.firstColumns_snd_iff (s := r.rhs)
  have hf := hg.mem_firstColumns_iff (s := r.rhs) (c := c)
  unfold triggers
  split
  rename_i f nullable he
  rw [he] at hn hf
  split
  · rename_i ht
    rw [IndexSet.mem_union, hf, hg.mem_follow_iff]
    simp [hn.mp ht]
  · rename_i ht
    have hnot : ¬g.Derives r.rhs [] := fun h => ht (hn.mpr h)
    rw [hf]
    simp [hnot]

theorem lt_of_mem_triggers (hg : g.WellFormed) (hr : r ∈ g.rules) (h : c ∈ triggers g.analyse r) :
    c < g.columnCount := by
  rcases hg.mem_triggers_iff.mp h with h | ⟨-, h⟩
  · exact Nat.lt_succ_of_lt (hg.lt_of_beginsWith (.of_derives (derives_rule hr) h))
  · exact hg.lt_of_followedBy h

-- Rules are in order of their numbers.
theorem ascending_rules (hg : g.WellFormed) :
    g.rules.Pairwise fun r r' => r.serial < r'.serial := by
  apply List.pairwise_iff_getElem.mpr
  intro i j hi hj hij
  have h₁ := hg.serial_eq i _ (List.getElem?_eq_getElem hi)
  have h₂ := hg.serial_eq j _ (List.getElem?_eq_getElem hj)
  omega

theorem nodup_rules (hg : g.WellFormed) : g.rules.Nodup :=
  hg.ascending_rules.imp fun h he => Nat.ne_of_lt h (congrArg Rule.serial he)

-- A table of a well-formed grammar is always built, and holds all placements of its rules.
theorem build_holds (hg : g.WellFormed) (hsmall : g.rules.length < 2 ^ 31) (options : List Policy) :
    ∃ t, Table.build g.analyse options = .ok t ∧ t.analysis = g.analyse ∧
      t.policy = .ofOptions options ∧
      Holds g t.matrix (placements g.analyse g.rules) ∧
      t.conflicts = conflictsFrom g [] (placements g.analyse g.rules) := by
  let blank := Matrix.empty g.nonterminals.length g.columnCount Matrix.defaultNull
  have hsorted : blank.IsSorted := .nil
  have hblank : Holds g blank [] := by
    refine ⟨hsorted, rfl, rfl, rfl, by simp, fun i c => ?_⟩
    rw [Matrix.entry?_eq_find? hsorted]
    rfl
  obtain ⟨m, hm, hh⟩ := Holds.enterRules (a := g.analyse) hblank hg hsmall
    (fun r (hr : r ∈ g.rules) => hr) (fun r hr c hc => hg.lt_of_mem_triggers hr hc)
  refine ⟨⟨g.analyse, m, conflictsFrom g [] (placements g.analyse g.rules), .ofOptions options⟩,
    ?_, rfl, rfl, hh, rfl⟩
  unfold Table.build
  show (Table.enterRules g.analyse blank g.rules >>= fun x => _) = _
  rw [hm]
  rfl

end Grammar.WellFormed

namespace Table

variable {g : Grammar} {t : Table} {options : List Policy}

theorem holds_of_build (hb : build g.analyse options = .ok t) (hg : g.WellFormed)
    (hsmall : g.rules.length < 2 ^ 31) :
    t.analysis = g.analyse ∧ t.policy = .ofOptions options ∧
      Holds g t.matrix (placements g.analyse g.rules) ∧
      t.conflicts = conflictsFrom g [] (placements g.analyse g.rules) := by
  obtain ⟨t', ht', h⟩ := hg.build_holds hsmall options
  rw [hb] at ht'
  cases ht'
  exact h

theorem grammar_of_build (hb : build g.analyse options = .ok t) (hg : g.WellFormed)
    (hsmall : g.rules.length < 2 ^ 31) : t.grammar = g := by
  rw [grammar, (holds_of_build hb hg hsmall).1]
  rfl

-- The rules in a cell are found by their numbers.
theorem ruleIn_cellNumber (hb : build g.analyse options = .ok t) (hg : g.WellFormed)
    (hsmall : g.rules.length < 2 ^ 31) (i c k : Nat) :
    t.ruleIn (cellNumber (eligible g.analyse i c)[k]?) = .ok (eligible g.analyse i c)[k]? := by
  have hnull := (holds_of_build hb hg hsmall).2.2.1.null
  rw [ruleIn, hnull]
  cases hr : (eligible g.analyse i c)[k]? with
  | none => exact if_pos rfl
  | some r =>
      have hmem : r ∈ g.rules := (mem_eligible.mp (List.mem_of_getElem? hr)).1
      rw [cellNumber, Option.map_some, Option.getD_some,
        if_neg (hg.number_ne_null hsmall hmem), grammar_of_build hb hg hsmall,
        hg.ruleNumbered_number hsmall hmem]
      rfl

theorem values_of_build (hb : build g.analyse options = .ok t) (hg : g.WellFormed)
    (hsmall : g.rules.length < 2 ^ 31) (i c : Nat) :
    t.matrix.values i c =
      (cellNumber (eligible g.analyse i c)[0]?, cellNumber (eligible g.analyse i c)[1]?) := by
  rw [(holds_of_build hb hg hsmall).2.2.1.values_eq]
  exact congrArg (fun cell : List Rule => (cellNumber cell[0]?, cellNumber cell[1]?))
    (occupants_eq_eligible g.analyse i c)

-- The look-up finds the first eligible rule, and never breaks down.
theorem lookup_eq (hb : build g.analyse options = .ok t) (hg : g.WellFormed)
    (hsmall : g.rules.length < 2 ^ 31) (i : Nat) {la : Symbol} (hla : la.isNonterminal = false) :
    t.lookup (.nonterminal i) la = .ok (eligible g.analyse i (g.column la)).head? := by
  have hlookup : t.lookup (.nonterminal i) la =
      t.ruleIn (t.matrix.value i (t.grammar.column la)) := by
    cases la with
    | nonterminal j => simp [Symbol.isNonterminal] at hla
    | terminal j => rfl
    | endOfInput => rfl
  rw [hlookup, grammar_of_build hb hg hsmall, Matrix.value, values_of_build hb hg hsmall,
    ruleIn_cellNumber hb hg hsmall, List.head?_eq_getElem?]

-- A cell shows the first two eligible rules.
theorem cell_eq (hb : build g.analyse options = .ok t) (hg : g.WellFormed)
    (hsmall : g.rules.length < 2 ^ 31) (i : Nat) {la : Symbol} (hla : la.isNonterminal = false) :
    t.cell (.nonterminal i) la = .ok ((eligible g.analyse i (g.column la))[0]?,
      (eligible g.analyse i (g.column la))[1]?) := by
  have hcell : t.cell (.nonterminal i) la = (do
      let cell := t.matrix.values i (t.grammar.column la)
      return (← t.ruleIn cell.1, ← t.ruleIn cell.2)) := by
    cases la with
    | nonterminal j => simp [Symbol.isNonterminal] at hla
    | terminal j => rfl
    | endOfInput => rfl
  rw [hcell, grammar_of_build hb hg hsmall, values_of_build hb hg hsmall]
  simp only [ruleIn_cellNumber hb hg hsmall]
  rfl

end Table

end Lookahead
