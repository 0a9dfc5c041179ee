import Lookahead.Proofs.Parser.Action
import Lookahead.Proofs.Parser.Engine
import Mathlib.Data.ENat.Lattice
import Mathlib.Order.CompletePartialOrder

/-!
Parses that are interrupted, by a cancellation or by a source that has nothing to deliver any more.
Such an interruption makes a difference only to a parse that pulls another token behind it.
-/

namespace Lookahead

-- An input on which a parse is not cancelled.
def Input.undisturbed (source : Source) (haltWhenStuck : Bool) : Input :=
  ⟨source, fun _ => false, haltWhenStuck⟩

-- The parse is cancelled as soon as so many pulls have been made.
def Input.cancelledAt (n : Nat) (input : Input) : Input :=
  { input with isCancelled := fun pulls => n ≤ pulls }

namespace Parser

-- The pulls that a parse makes with at most `fuel` steps.
def parsePulls (fuel : Nat) (t : Option Table) (input : Input) : Nat :=
  match t with
  | some t => if t.isLeftRecursive then 0 else pullsWithin t input fuel (begin t input)
  | none => 0

-- The pulls that a parse makes at all. A parse that does not end may make infinitely many.
noncomputable def totalPulls (t : Option Table) (input : Input) : ℕ∞ :=
  ⨆ fuel, (parsePulls fuel t input : ℕ∞)

-- Parses that go the same way with the same pulls.
structure Coincide (t : Option Table) (input other : Input) : Prop where
  totalPulls_eq : totalPulls t other = totalPulls t input
  parseWithin_eq : ∀ fuel, parseWithin fuel t (some other) = parseWithin fuel t (some input)

variable {t : Option Table} {table : Table} {input other : Input} {n fuel : Nat}

theorem totalPulls_le_iff : totalPulls t input ≤ n ↔ ∀ fuel, parsePulls fuel t input ≤ n := by
  simp only [totalPulls, iSup_le_iff, Nat.cast_le]

theorem lt_totalPulls_iff : n < totalPulls t input ↔ ∃ fuel, n < parsePulls fuel t input := by
  simp only [totalPulls, lt_iSup_iff, Nat.cast_lt]

-- A parser without a table, or with a left-recursive one, does not pull anything.
theorem eq_some_of_lt_parsePulls (h : n < parsePulls fuel t input) :
    ∃ table, t = some table ∧ table.isLeftRecursive = false := by
  cases t with
  | none => exact absurd h (Nat.not_lt_zero n)
  | some table =>
      cases hl : table.isLeftRecursive with
      | false => exact ⟨table, rfl, hl⟩
      | true =>
          rw [parsePulls, if_pos hl] at h
          exact absurd h (Nat.not_lt_zero n)

theorem parsePulls_eq (hl : table.isLeftRecursive = false) :
    parsePulls fuel (some table) input = pullsWithin table input fuel (begin table input) :=
  if_neg (Bool.eq_false_iff.mp hl)

theorem parseWithin_eq_run (hl : table.isLeftRecursive = false) :
    parseWithin fuel (some table) (some input) = run (step table input) fuel (begin table input) :=
  if_neg (Bool.eq_false_iff.mp hl)

theorem pullsWithin_le_of_run {progress : Progress State} {report : Report} {fuel' : Nat}
    (h : run (step table input) fuel progress = some report) :
    pullsWithin table input fuel' progress ≤ report.pulls := by
  induction fuel' generalizing fuel progress with
  | zero =>
      rw [← pullsWithin_of_run h]
      cases progress <;> exact le_pullsWithin
  | succ fuel' ih =>
      cases progress with
      | done report' =>
          rw [run_done] at h
          cases h
          exact Nat.le_refl _
      | next s =>
          cases fuel with
          | zero => cases h
          | succ fuel => exact ih h

-- The pulls of a parse that ends are the ones that it reports.
theorem totalPulls_of_parseWithin {report : Report}
    (h : parseWithin fuel t (some input) = some report) : totalPulls t input = report.pulls := by
  have hzero : ∀ m, (∀ fuel, parsePulls fuel t input ≤ m) → parsePulls fuel t input = m →
      totalPulls t input = m := by
    intro m hle heq
    refine le_antisymm (totalPulls_le_iff.mpr hle) ?_
    rw [← heq]
    exact le_iSup (fun fuel => (parsePulls fuel t input : ℕ∞)) fuel
  cases t with
  | none =>
      cases h
      exact hzero 0 (fun _ => Nat.le_refl 0) rfl
  | some table =>
      cases hl : table.isLeftRecursive with
      | true =>
          simp only [parseWithin, guarded, hl, if_true] at h
          cases h
          simp only [parsePulls, hl, if_true] at hzero
          exact hzero 0 (fun _ => Nat.le_refl 0) rfl
      | false =>
          rw [parseWithin_eq_run hl] at h
          simp only [parsePulls_eq hl] at hzero
          exact hzero _ (fun _ => pullsWithin_le_of_run h) (pullsWithin_of_run h)

-- A parse that makes no other pulls than the first ones goes the same way on an input that agrees
-- on them.
theorem coincide_of_agrees (hnever : ∀ i, input.isCancelled i = false)
    (h : input.AgreesUntil n other) (hn : totalPulls t input ≤ n) : Coincide t input other := by
  rw [totalPulls_le_iff] at hn
  suffices hsame : ∀ fuel, parseWithin fuel t (some other) = parseWithin fuel t (some input) ∧
      parsePulls fuel t other = parsePulls fuel t input by
    refine ⟨?_, fun fuel => (hsame fuel).1⟩
    simp only [totalPulls, fun fuel => (hsame fuel).2]
  cases t with
  | none => exact fun _ => ⟨rfl, rfl⟩
  | some table =>
      cases hl : table.isLeftRecursive with
      | true => simp only [parseWithin, guarded, parsePulls, hl, if_true, and_self, implies_true]
      | false =>
          simp only [parsePulls_eq hl, parseWithin_eq_run hl] at hn ⊢
          have hpos : 0 < n := by
            have hfirst := Nat.le_trans le_pullsWithin (hn 0)
            rwa [begin, pulls_pull hnever] at hfirst
          have hbegin : begin table other = begin table input := pull_agrees h hpos _ _
          rw [hbegin]
          exact fun fuel => run_agrees hnever h (hn fuel)

-- A parse that makes another pull ends there on an input that has agreed up to it, if that pull is
-- its end in whatever state it is made.
theorem exists_parse_of_pull (hnever : ∀ i, input.isCancelled i = false)
    (h : input.AgreesUntil n other) (hn : n < totalPulls t input) {report : Report}
    (hpull : ∀ goals built, pull other n goals built = .done report) :
    ∃ fuel, parseWithin fuel t (some other) = some report := by
  obtain ⟨fuel, hn⟩ := lt_totalPulls_iff.mp hn
  obtain ⟨table, rfl, hl⟩ := eq_some_of_lt_parsePulls hn
  rw [parsePulls_eq hl] at hn
  simp only [parseWithin_eq_run hl]
  rcases Nat.eq_zero_or_pos n with rfl | hpos
  · exact ⟨0, by rw [begin, hpull, run_done]⟩
  · have hbegin : begin table other = begin table input := pull_agrees h hpos _ _
    have hfirst : (begin table input).pulls = 1 := pulls_pull hnever _ _
    rw [hbegin]
    cases hp : begin table input with
    | done report' =>
        rw [hp] at hn hfirst
        rw [pullsWithin_done] at hn
        rw [Progress.pulls] at hfirst
        omega
    | next s =>
        rw [hp] at hn hfirst
        obtain ⟨steps, goals, built, hrun⟩ :=
          comesToPull hnever (Nat.le_trans (Nat.le_of_eq hfirst) hpos) hn
        refine ⟨steps + 0, ?_⟩
        rw [hrun other h, hpull, run_done]

-- An interruption behind all pulls of a parse does not make a difference. One before that ends it,
-- with as many pulls as there have been in the case of a cancellation, and with the one that has not
-- delivered anything in the case of a source.
theorem interruption (t : Option Table) (source : Source) (n : Nat) :
    (∀ halt, (totalPulls t (.undisturbed source halt) ≤ n →
        Coincide t (.undisturbed source halt) ((Input.undisturbed source halt).cancelledAt n)) ∧
      (n < totalPulls t (.undisturbed source halt) → ∃ fuel,
        parseWithin fuel t (some ((Input.undisturbed source halt).cancelledAt n)) =
          some ⟨.failed .cancelled, n⟩)) ∧
    (totalPulls t (.ofSource source) ≤ n →
      Coincide t (.ofSource source) (.ofSource (source.exhaustedAfter n))) ∧
    (n < totalPulls t (.ofSource source) → ∃ fuel,
      parseWithin fuel t (some (.ofSource (source.exhaustedAfter n))) =
        some ⟨.failed .stuck, n + 1⟩) := by
  have hcancelled : ∀ halt, (Input.undisturbed source halt).AgreesUntil n
      ((Input.undisturbed source halt).cancelledAt n) := fun halt =>
    ⟨fun _ _ => rfl, fun i hi => decide_eq_false (Nat.not_le_of_lt hi), rfl⟩
  have hexhausted : (Input.ofSource source).AgreesUntil n (.ofSource (source.exhaustedAfter n)) :=
    ⟨fun i hi => if_pos hi, fun _ _ => rfl, rfl⟩
  refine ⟨fun halt => ⟨coincide_of_agrees (fun _ => rfl) (hcancelled halt), fun hn => ?_⟩,
    coincide_of_agrees (fun _ => rfl) hexhausted, fun hn => ?_⟩
  · refine exists_parse_of_pull (fun _ => rfl) (hcancelled halt) hn fun goals built => ?_
    simp [pull, Input.pull, Input.cancelledAt]
  · refine exists_parse_of_pull (fun _ => rfl) hexhausted hn fun goals built => ?_
    simp [pull, Input.pull, Input.ofSource, Source.exhaustedAfter]

-- The four pulls for a sum may be the last ones, but not the first three of them.
theorem interruption_sum :
    ∃ t tree, Table.build Expression.grammar.analyse [] = .ok t ∧
      totalPulls (some t) (.ofSource (TokenList.source sumTokens)) = 4 ∧
      (∃ fuel, parseWithin fuel (some t)
        (some ((Input.ofSource (TokenList.source sumTokens)).cancelledAt 4)) =
          some ⟨.accepted tree, 4⟩) ∧
      (∃ fuel, parseWithin fuel (some t)
        (some ((Input.ofSource (TokenList.source sumTokens)).cancelledAt 3)) =
          some ⟨.failed .cancelled, 3⟩) ∧
      ∃ fuel, parseWithin fuel (some t)
        (some (.ofSource ((TokenList.source sumTokens).exhaustedAfter 3))) =
          some ⟨.failed .stuck, 4⟩ := by
  obtain ⟨t, tree, pulls, hb, hl, -, hparse⟩ := exists_sumTree
  have ht := (Table.isSound_of_build hb Expression.isFirstBuild.wellFormed (by decide)).2
  obtain rfl : pulls = 4 := pulls_of_accepts (by decide) ht hl hparse
  have hrun : parseWithin (stepBound t.grammar sumTokens.length) (some t)
      (some (.ofSource (TokenList.source sumTokens))) = some ⟨.accepted tree, 4⟩ := hparse
  have htotal : totalPulls (some t) (.ofSource (TokenList.source sumTokens)) = 4 :=
    totalPulls_of_parseWithin hrun
  have hbehind := ((interruption (some t) (TokenList.source sumTokens) 4).1 false).1 htotal.le
  have hbefore := interruption (some t) (TokenList.source sumTokens) 3
  have hlt : ((3 : Nat) : ℕ∞) < totalPulls (some t) (.ofSource (TokenList.source sumTokens)) := by
    rw [htotal]
    decide
  exact ⟨t, tree, hb, htotal, ⟨_, (hbehind.parseWithin_eq _).trans hrun⟩,
    (hbefore.1 false).2 hlt, hbefore.2.2 hlt⟩

end Parser

end Lookahead
