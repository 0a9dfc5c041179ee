import Lookahead.Proofs.Parser.Run

/-!
What a parse consumes. It pulls one token before the first step, and one more behind every terminal
that it has matched.
-/

namespace Lookahead.Parser

-- Whether the next step matches a terminal.
def State.matchesTerminal (t : Table) (s : State) : Bool :=
  match s.goals with
  | .symbol (.terminal i) :: _ => t.grammar.terminal? s.token.type = some (.terminal i)
  | _ => false

-- How many terminals are matched within so many steps.
def matchedWithin (t : Table) (input : Input) : (fuel : Nat) → Progress State → Nat
  | fuel + 1, .next s => (s.matchesTerminal t).toNat + matchedWithin t input fuel (step t input s)
  | _, _ => 0

-- How many terminals a parse matches, for an input of so many tokens.
def matched (t : Table) (input : Input) (tokens : Nat) : Nat :=
  matchedWithin t input (stepBound t.grammar tokens) (begin t input)

variable {t : Table} {input : Input} {tokens : Nat → Token}

-- A step pulls a token if and only if it matches a terminal, and then the parse goes on.
theorem pulls_step (hin : input.Delivers tokens) (s : State) :
    (∀ s', step t input s = .next s' → s'.pulls = s.pulls + (s.matchesTerminal t).toNat) ∧
      ∀ report, step t input s = .done report →
        report.pulls = s.pulls ∧ s.matchesTerminal t = false := by
  obtain ⟨goals, built, token, pulls⟩ := s
  rcases goals with _ | ⟨goal, goals⟩
  · simp [step, State.matchesTerminal]
  · cases goal with
    | close r => simp [step, State.matchesTerminal]
    | symbol x =>
        cases x with
        | endOfInput =>
            by_cases hla : t.grammar.terminal? token.type = some .endOfInput
            · simp [step, choice, State.matchesTerminal, hla]
            · simp [step, choice, State.matchesTerminal, hla]
        | terminal i =>
            by_cases hla : t.grammar.terminal? token.type = some (.terminal i)
            · simp [step, choice, State.matchesTerminal, hla, pull_eq hin, stateAt]
            · simp [step, choice, State.matchesTerminal, hla]
        | nonterminal i =>
            cases hla : t.grammar.terminal? token.type with
            | none => simp [step, choice, State.matchesTerminal, hla]
            | some la =>
                rcases hr : t.lookup (.nonterminal i) la with fault | _ | r
                · simp [step, choice, State.matchesTerminal, hla, hr]
                · simp [step, choice, State.matchesTerminal, hla, hr]
                · simp [step, choice, State.matchesTerminal, hla, hr]

theorem pulls_run (hin : input.Delivers tokens) {fuel : Nat} {s : State} {report : Report}
    (h : run (step t input) fuel (.next s) = some report) :
    report.pulls = s.pulls + matchedWithin t input fuel (.next s) := by
  induction fuel generalizing s with
  | zero => cases h
  | succ fuel ih =>
      obtain ⟨hnext, hdone⟩ := pulls_step (t := t) hin s
      rw [run] at h
      rw [matchedWithin]
      cases hs : step t input s with
      | next s' =>
          rw [hs] at h
          have hpulls := ih h
          rw [hnext s' hs] at hpulls
          omega
      | done report' =>
          obtain ⟨hpulls, hmatch⟩ := hdone report' hs
          rw [hs] at h
          cases fuel <;> cases h <;> simp [hmatch, hpulls, matchedWithin]

-- A parse that ends has pulled one token more than it has matched terminals.
theorem pulls_eq_matched (hin : input.Delivers tokens) (hl : t.isLeftRecursive = false) {n : Nat}
    {report : Report} (h : parse (some t) (some input) n = some report) :
    report.pulls = matched t input n + 1 := by
  simp only [parse, parseWithin, guarded, hl, Bool.false_eq_true, if_false, begin, pull_eq hin] at h
  rw [pulls_run hin h, matched, begin, pull_eq hin, Nat.add_comm]
  rfl

end Lookahead.Parser
