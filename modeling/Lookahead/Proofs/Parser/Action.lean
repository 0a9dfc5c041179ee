import Lookahead.Parser.Basic
import Mathlib.Data.List.Basic

/-!
What a step of the parser does, and what it takes from the input. A step pulls a token if it matches
a terminal and leaves the input alone otherwise, so that a parse cannot tell inputs apart that
answer the pulls it makes in the same way.
-/

namespace Lookahead

-- Inputs that answer the first pulls in the same way.
structure Input.AgreesUntil (n : Nat) (input other : Input) : Prop where
  source_eq : ∀ i < n, other.source i = input.source i
  isCancelled_eq : ∀ i < n, other.isCancelled i = input.isCancelled i
  haltWhenStuck_eq : other.haltWhenStuck = input.haltWhenStuck

namespace Parser

-- The terminal that the next step matches, and its token.
def State.match? (t : Table) (s : State) : Option (Symbol × Token) :=
  match s.goals with
  | .symbol (.terminal i) :: _ =>
    if t.grammar.terminal? s.token.type = some (.terminal i) then some (.terminal i, s.token)
    else none
  | _ => none

-- All that a step may come to, told for any input.
inductive Acts (t : Table) (s : State) : (Input → Progress State) → Prop
  | shift {i : Nat} {goals : List Goal} (hgoals : s.goals = .symbol (.terminal i) :: goals)
      (hla : t.grammar.terminal? s.token.type = some (.terminal i))
      (hmatch : s.match? t = some (.terminal i, s.token)) :
      Acts t s fun input =>
        pull input s.pulls goals (.leaf (some (.terminal i)) (some s.token) :: s.built)
  | expand {i : Nat} {r : Rule} {goals : List Goal}
      (hgoals : s.goals = .symbol (.nonterminal i) :: goals) (hr : r ∈ t.grammar.rules)
      (hmatch : s.match? t = none) :
      Acts t s fun _ => .next { s with goals := r.rhs.map .symbol ++ .close r :: goals }
  | close {r : Rule} {goals : List Goal} (hgoals : s.goals = .close r :: goals)
      (hmatch : s.match? t = none) :
      Acts t s fun _ => .next { s with goals := goals, built := reduce r s.built }
  | accept {goals : List Goal} (hgoals : s.goals = .symbol .endOfInput :: goals)
      (hla : t.grammar.terminal? s.token.type = some .endOfInput) (hmatch : s.match? t = none) :
      Acts t s fun _ => .done ⟨.accepted (s.built.headD .missing), s.pulls⟩
  | reject {e : SyntaxError} (htoken : e.token = some s.token) (hmatch : s.match? t = none) :
      Acts t s fun _ => .done ⟨.failed (.rejected e), s.pulls⟩
  | breakDown {b : Breakdown} (hmatch : s.match? t = none) :
      Acts t s fun _ => .done ⟨.broken b, s.pulls⟩

variable {t : Table} {input other : Input} {n p fuel : Nat} {s : State} {progress : Progress State}

-- What a look-up finds is a rule of the grammar.
theorem mem_rules_of_lookup {x la : Symbol} {r : Rule} (h : t.lookup x la = .ok (some r)) :
    r ∈ t.grammar.rules := by
  have hin : ∀ number, t.ruleIn number = .ok (some r) → r ∈ t.grammar.rules := by
    intro number hn
    unfold Table.ruleIn Table.ruleNumbered at hn
    split at hn
    · cases hn
    · split at hn
      · rename_i r' hr'
        cases hn
        unfold Grammar.rule? at hr'
        split at hr'
        · exact List.mem_of_getElem? hr'
        · cases hr'
      · cases hn
  unfold Table.lookup at h
  split at h
  · cases h
  · exact hin _ h
  · cases h

-- All that can be chosen, and what the lookahead is then.
inductive Chosen (t : Table) (token : Token) : Symbol → Choice → Prop
  | accept (hla : t.grammar.terminal? token.type = some .endOfInput) :
      Chosen t token .endOfInput .accept
  | shift {i : Nat} (hla : t.grammar.terminal? token.type = some (.terminal i)) :
      Chosen t token (.terminal i) .shift
  | expand {i : Nat} {r : Rule} (hr : r ∈ t.grammar.rules) :
      Chosen t token (.nonterminal i) (.expand r)
  | reject {x : Symbol} {e : SyntaxError} (htoken : e.token = some token)
      (hla : ∀ i, x = .terminal i → t.grammar.terminal? token.type ≠ some x) :
      Chosen t token x (.reject e)
  | breakDown {i : Nat} {fault : Table.Fault} : Chosen t token (.nonterminal i) (.breakDown fault)

theorem chosen (t : Table) (token : Token) (x : Symbol) : Chosen t token x (choice t token x) := by
  cases x with
  | endOfInput =>
      rw [choice]
      split
      · next hla => exact .accept hla
      · exact .reject rfl nofun
  | terminal i =>
      rw [choice]
      split
      · next hla => exact .shift hla
      · next hla => exact .reject rfl fun _ _ => hla
  | nonterminal i =>
      rw [choice]
      split
      · exact .reject rfl nofun
      · split
        · exact .breakDown
        · exact .reject rfl nofun
        · next hr => exact .expand (mem_rules_of_lookup hr)

theorem exists_acts (t : Table) (s : State) :
    ∃ act, Acts t s act ∧ ∀ input, step t input s = act input := by
  obtain ⟨goals, built, token, pulls⟩ := s
  rcases goals with _ | ⟨goal, goals⟩
  · exact ⟨_, .breakDown rfl, fun _ => rfl⟩
  · cases goal with
    | close r => exact ⟨_, .close rfl rfl, fun _ => rfl⟩
    | symbol x =>
        have hchosen := chosen t token x
        generalize hc : choice t token x = c at hchosen
        cases hchosen with
        | accept hla => exact ⟨_, .accept rfl hla rfl, fun _ => by simp only [step, hc]⟩
        | shift hla => exact ⟨_, .shift rfl hla (if_pos hla), fun _ => by simp only [step, hc]⟩
        | expand hr => exact ⟨_, .expand rfl hr rfl, fun _ => by simp only [step, hc]⟩
        | @reject _ e htoken hla =>
            refine ⟨_, .reject htoken ?_, fun _ => by simp only [step, hc]⟩
            cases x with
            | terminal i => exact if_neg (hla i rfl)
            | nonterminal i => rfl
            | endOfInput => rfl
        | @breakDown i fault =>
            exact ⟨_, .breakDown (b := .tableFault fault) rfl, fun _ => by simp only [step, hc]⟩

def Progress.pulls : Progress State → Nat
  | .next s => s.pulls
  | .done report => report.pulls

-- The pulls that have been made after so many steps.
def pullsWithin (t : Table) (input : Input) : (fuel : Nat) → Progress State → Nat
  | fuel + 1, .next s => pullsWithin t input fuel (step t input s)
  | _, progress => progress.pulls

theorem pullsWithin_done (t : Table) (input : Input) (fuel : Nat) (report : Report) :
    pullsWithin t input fuel (.done report) = report.pulls := by
  cases fuel <;> rfl

theorem run_done {σ : Type} (step : σ → Progress σ) (fuel : Nat) (report : Report) :
    run step fuel (.done report) = some report := by
  cases fuel <;> rfl

-- A report tells the pulls that have been made.
theorem pullsWithin_of_run {report : Report} (h : run (step t input) fuel progress = some report) :
    pullsWithin t input fuel progress = report.pulls := by
  induction fuel generalizing progress with
  | zero =>
      cases progress with
      | next s => cases h
      | done report' => cases h; rfl
  | succ fuel ih =>
      cases progress with
      | next s => exact ih h
      | done report' => cases h; rfl

-- Pulls are not taken back.
theorem le_pulls_pull (input : Input) (p : Nat) (goals : List Goal) (built : List Tree) :
    p ≤ (pull input p goals built).pulls := by
  unfold pull Input.pull
  cases input.isCancelled p with
  | true => exact Nat.le_refl p
  | false =>
      cases input.source p with
      | token token => exact Nat.le_succ p
      | nothing => cases input.haltWhenStuck <;> exact Nat.le_succ p
      | crash => exact Nat.le_succ p

theorem le_pullsWithin : progress.pulls ≤ pullsWithin t input fuel progress := by
  induction fuel generalizing progress with
  | zero => cases progress <;> exact Nat.le_refl _
  | succ fuel ih =>
      cases progress with
      | done report => exact Nat.le_refl _
      | next s =>
          rw [pullsWithin]
          refine Nat.le_trans ?_ ih
          obtain ⟨act, hact, hstep⟩ := exists_acts t s
          rw [hstep]
          cases hact with
          | shift => exact le_pulls_pull input s.pulls _ _
          | _ => exact Nat.le_refl _

-- As long as the parse is not cancelled, a pull counts.
theorem pulls_pull (hnever : ∀ i, input.isCancelled i = false) (goals : List Goal)
    (built : List Tree) : (pull input p goals built).pulls = p + 1 := by
  unfold pull Input.pull
  rw [hnever, if_neg Bool.false_ne_true]
  cases input.source p with
  | token token => rfl
  | nothing => cases input.haltWhenStuck <;> rfl
  | crash => rfl

theorem pull_agrees (h : input.AgreesUntil n other) (hp : p < n) (goals : List Goal)
    (built : List Tree) : pull other p goals built = pull input p goals built := by
  simp only [pull, Input.pull, h.isCancelled_eq p hp, h.source_eq p hp, h.haltWhenStuck_eq]

-- A parse that is through after the first pulls goes the same way on an input that agrees on them.
theorem run_agrees (hnever : ∀ i, input.isCancelled i = false) (h : input.AgreesUntil n other)
    (hn : pullsWithin t input fuel progress ≤ n) :
    run (step t other) fuel progress = run (step t input) fuel progress ∧
      pullsWithin t other fuel progress = pullsWithin t input fuel progress := by
  induction fuel generalizing progress with
  | zero => cases progress <;> exact ⟨rfl, rfl⟩
  | succ fuel ih =>
      cases progress with
      | done report => exact ⟨rfl, rfl⟩
      | next s =>
          obtain ⟨act, hact, hstep⟩ := exists_acts t s
          rw [pullsWithin, hstep] at hn
          suffices hsame : act other = act input by
            rw [run, run, pullsWithin, pullsWithin, hstep, hstep, hsame]
            exact ih hn
          cases hact with
          | shift =>
              have hlater := Nat.le_trans le_pullsWithin hn
              rw [pulls_pull hnever] at hlater
              exact pull_agrees h hlater _ _
          | _ => rfl

-- Whether a run comes to the pull behind the first ones in the same way on all inputs that agree on
-- them.
def ComesToPull (t : Table) (input : Input) (n : Nat) (s : State) : Prop :=
  ∃ steps goals built, ∀ other, input.AgreesUntil n other → ∀ fuel,
    run (step t other) (steps + fuel) (.next s) = run (step t other) fuel (pull other n goals built)

theorem ComesToPull.of_step {s' : State}
    (hstep : ∀ other, input.AgreesUntil n other → step t other s = .next s')
    (h : ComesToPull t input n s') : ComesToPull t input n s := by
  obtain ⟨steps, goals, built, hrun⟩ := h
  refine ⟨steps + 1, goals, built, fun other hother fuel => ?_⟩
  rw [Nat.add_right_comm, run, hstep other hother, hrun other hother]

-- A parse that goes on beyond the first pulls comes to the next one. Steps without a pull are the
-- same on all inputs, and a pull before that is on all those that agree on it.
theorem comesToPull (hnever : ∀ i, input.isCancelled i = false) (hs : s.pulls ≤ n)
    (hn : n < pullsWithin t input fuel (.next s)) : ComesToPull t input n s := by
  induction fuel generalizing s with
  | zero => exact absurd hn (Nat.not_lt_of_le hs)
  | succ fuel ih =>
      obtain ⟨act, hact, hstep⟩ := exists_acts t s
      rw [pullsWithin, hstep] at hn
      cases hact with
      | @shift i goals =>
          generalize Tree.leaf (some (.terminal i)) (some s.token) :: s.built = built at *
          rcases Nat.eq_or_lt_of_le hs with rfl | hlt
          · refine ⟨1, goals, built, fun other _ fuel => ?_⟩
            rw [Nat.add_comm, run, hstep]
          · have hcount := pulls_pull (p := s.pulls) hnever goals built
            cases hp : pull input s.pulls goals built with
            | done report =>
                simp only [hp, pullsWithin_done, Progress.pulls] at hn hcount
                omega
            | next s' =>
                simp only [hp] at hn hcount
                refine (ih (Nat.le_trans (Nat.le_of_eq hcount) hlt) hn).of_step fun other h => ?_
                exact (hstep other).trans ((pull_agrees h hlt goals built).trans hp)
      | expand => exact .of_step (fun other _ => hstep other) (ih hs hn)
      | close => exact .of_step (fun other _ => hstep other) (ih hs hn)
      | accept =>
          rw [pullsWithin_done] at hn
          exact absurd hn (Nat.not_lt_of_le hs)
      | reject =>
          rw [pullsWithin_done] at hn
          exact absurd hn (Nat.not_lt_of_le hs)
      | breakDown =>
          rw [pullsWithin_done] at hn
          exact absurd hn (Nat.not_lt_of_le hs)

end Parser

end Lookahead
