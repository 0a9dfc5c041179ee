import Lookahead.Parser.Basic

/-!
Runs of the parser, told by the string of symbols on top of the stack. Such a run ends as soon as
there are trees for all symbols of the string or a syntax error; what is below them on the stack
stays as it is. All sources here deliver a token on every pull.
-/

namespace Lookahead

-- Input that delivers some tokens, one after the other.
structure Input.Delivers (input : Input) (tokens : Nat → Token) : Prop where
  source : ∀ i, input.source i = .token (tokens i)
  isCancelled : ∀ i, input.isCancelled i = false

namespace Parser

-- The symbol that stands for the token at a position.
def lookahead (t : Table) (tokens : Nat → Token) (p : Nat) : Option Symbol :=
  t.grammar.terminal? (tokens p).type

-- A run for a string from position `p` to position `q`, its result and its number of steps.
inductive Runs (t : Table) (tokens : Nat → Token) :
    List Symbol → (p q : Nat) → Except SyntaxError (List Tree) → (steps : Nat) → Prop
  | nil {p : Nat} : Runs t tokens [] p p (.ok []) 0
  | shift {i p q n : Nat} {s : List Symbol} {result : Except SyntaxError (List Tree)}
      (hla : lookahead t tokens p = some (.terminal i))
      (hs : Runs t tokens s (p + 1) q result n) :
      Runs t tokens (.terminal i :: s) p q
        (result.map (.leaf (some (.terminal i)) (some (tokens p)) :: ·)) (n + 1)
  | mismatch {i p : Nat} {s : List Symbol} (hla : lookahead t tokens p ≠ some (.terminal i)) :
      Runs t tokens (.terminal i :: s) p p
        (.error (.unexpected (.terminal i) (lookahead t tokens p) (tokens p))) 1
  | expand {i p m q n n' : Nat} {la : Symbol} {r : Rule} {s : List Symbol} {children : List Tree}
      {result : Except SyntaxError (List Tree)} (hla : lookahead t tokens p = some la)
      (hr : t.lookup (.nonterminal i) la = .ok (some r))
      (hc : Runs t tokens r.rhs p m (.ok children) n) (hs : Runs t tokens s m q result n') :
      Runs t tokens (.nonterminal i :: s) p q
        (result.map (.branch (some r) children :: ·)) (n + n' + 2)
  | inside {i p q n : Nat} {la : Symbol} {r : Rule} {s : List Symbol} {e : SyntaxError}
      (hla : lookahead t tokens p = some la) (hr : t.lookup (.nonterminal i) la = .ok (some r))
      (hc : Runs t tokens r.rhs p q (.error e) n) :
      Runs t tokens (.nonterminal i :: s) p q (.error e) (n + 1)
  | refuse {i p : Nat} {s : List Symbol}
      (hr : ∀ la, lookahead t tokens p = some la → t.lookup (.nonterminal i) la = .ok none) :
      Runs t tokens (.nonterminal i :: s) p p
        (.error (.noProduction (.nonterminal i) (t.row (.nonterminal i)) (lookahead t tokens p)
          (tokens p))) 1

-- The state in which the token at position `p` has just been pulled.
def stateAt (tokens : Nat → Token) (p : Nat) (goals : List Goal) (built : List Tree) : State :=
  ⟨goals, built, tokens p, p + 1⟩

variable {t : Table} {tokens : Nat → Token} {input : Input} {s : List Symbol} {p q n : Nat}
  {result : Except SyntaxError (List Tree)} {trees : List Tree}

theorem map_eq_ok {f : List Tree → List Tree} (h : result.map f = .ok trees) :
    ∃ rest, result = .ok rest ∧ trees = f rest := by
  cases result with
  | error e => cases h
  | ok rest => exact ⟨rest, rfl, (Except.ok.inj h).symm⟩

namespace Runs

theorem le (h : Runs t tokens s p q result n) : p ≤ q := by
  induction h with
  | nil => exact Nat.le_refl _
  | shift _ _ ih => omega
  | mismatch => exact Nat.le_refl _
  | expand _ _ _ _ ihc ihs => omega
  | inside _ _ _ ih => exact ih
  | refuse => exact Nat.le_refl _

-- Induction over runs that end with trees.
@[elab_as_elim]
theorem ok_induction
    {motive : (s : List Symbol) → (p q n : Nat) → (trees : List Tree) →
      Runs t tokens s p q (.ok trees) n → Prop}
    (nil : ∀ p, motive [] p p 0 [] .nil)
    (shift : ∀ {i p q n : Nat} {s : List Symbol} {trees : List Tree}
      (hla : lookahead t tokens p = some (.terminal i))
      (hs : Runs t tokens s (p + 1) q (.ok trees) n), motive s (p + 1) q n trees hs →
      motive (.terminal i :: s) p q (n + 1) (.leaf (some (.terminal i)) (some (tokens p)) :: trees)
        (.shift hla hs))
    (expand : ∀ {i p m q n n' : Nat} {la : Symbol} {r : Rule} {s : List Symbol}
      {children trees : List Tree} (hla : lookahead t tokens p = some la)
      (hr : t.lookup (.nonterminal i) la = .ok (some r))
      (hc : Runs t tokens r.rhs p m (.ok children) n) (hs : Runs t tokens s m q (.ok trees) n'),
      motive r.rhs p m n children hc → motive s m q n' trees hs →
      motive (.nonterminal i :: s) p q (n + n' + 2) (.branch (some r) children :: trees)
        (.expand hla hr hc hs))
    (h : Runs t tokens s p q (.ok trees) n) : motive s p q n trees h := by
  suffices hall : ∀ {s p q n result} (h : Runs t tokens s p q result n) trees
      (he : result = .ok trees), motive s p q n trees (he ▸ h) from hall h trees rfl
  clear h
  intro s p q n result h
  induction h with
  | nil =>
      intro trees he
      cases he
      exact nil _
  | @shift i p q n s result hla hs ih =>
      intro trees he
      obtain ⟨rest, rfl, rfl⟩ := map_eq_ok he
      exact shift hla hs (ih rest rfl)
  | mismatch => exact fun _ he => nomatch he
  | @expand i p m q n n' la r s children result hla hr hc hs ihc ihs =>
      intro trees he
      obtain ⟨rest, rfl, rfl⟩ := map_eq_ok he
      exact expand hla hr hc hs (ihc _ rfl) (ihs _ rfl)
  | inside => exact fun _ he => nomatch he
  | refuse => exact fun _ he => nomatch he

theorem length_eq (h : Runs t tokens s p q (.ok trees) n) :
    trees.length = s.length := by
  induction h using ok_induction with
  | nil => rfl
  | shift _ _ ih => exact congrArg (· + 1) ih
  | expand _ _ _ _ _ ih => exact congrArg (· + 1) ih

end Runs

theorem pull_eq (hin : input.Delivers tokens) (p : Nat) (goals : List Goal) (built : List Tree) :
    pull input p goals built = .next (stateAt tokens p goals built) := by
  simp only [pull, Input.pull, hin.isCancelled, hin.source]
  rfl

theorem reduce_eq (r : Rule) {children : List Tree} (hlength : children.length = r.rhs.length)
    (built : List Tree) :
    reduce r (children.reverse ++ built) = .branch (some r) children :: built := by
  have hl : r.rhs.length = children.reverse.length := by rw [List.length_reverse, hlength]
  simp only [reduce, hl, List.take_left, List.drop_left, List.reverse_reverse]

-- One step for each goal on top of the stack.
section Steps

variable {i : Nat} {la : Symbol} {r : Rule} {goals : List Goal} {built : List Tree}

theorem step_shift (hin : input.Delivers tokens)
    (hla : lookahead t tokens p = some (.terminal i)) :
    step t input (stateAt tokens p (.symbol (.terminal i) :: goals) built) =
      .next (stateAt tokens (p + 1) goals
        (.leaf (some (.terminal i)) (some (tokens p)) :: built)) := by
  have hchoice : choice t (tokens p) (.terminal i) = .shift := if_pos hla
  simp only [step, stateAt, hchoice]
  exact pull_eq hin (p + 1) goals _

theorem step_mismatch (hla : lookahead t tokens p ≠ some (.terminal i)) :
    step t input (stateAt tokens p (.symbol (.terminal i) :: goals) built) =
      .done ⟨.failed (.rejected
        (.unexpected (.terminal i) (lookahead t tokens p) (tokens p))), p + 1⟩ := by
  have hchoice : choice t (tokens p) (.terminal i) =
      .reject (.unexpected (.terminal i) (lookahead t tokens p) (tokens p)) := if_neg hla
  simp only [step, stateAt, hchoice]

theorem step_expand (hla : lookahead t tokens p = some la)
    (hr : t.lookup (.nonterminal i) la = .ok (some r)) :
    step t input (stateAt tokens p (.symbol (.nonterminal i) :: goals) built) =
      .next (stateAt tokens p (r.rhs.map .symbol ++ .close r :: goals) built) := by
  unfold lookahead at hla
  simp only [step, choice, stateAt, hla, hr]

theorem step_refuse
    (hr : ∀ la, lookahead t tokens p = some la → t.lookup (.nonterminal i) la = .ok none) :
    step t input (stateAt tokens p (.symbol (.nonterminal i) :: goals) built) =
      .done ⟨.failed (.rejected (.noProduction (.nonterminal i) (t.row (.nonterminal i))
        (lookahead t tokens p) (tokens p))), p + 1⟩ := by
  unfold lookahead at hr ⊢
  cases hla : t.grammar.terminal? (tokens p).type with
  | none => simp only [step, choice, stateAt, hla]
  | some la => simp only [step, choice, stateAt, hla, hr la hla]

theorem step_close :
    step t input (stateAt tokens p (.close r :: goals) built) =
      .next (stateAt tokens p goals (reduce r built)) := rfl

end Steps

-- A run of the parser follows the run for the string on top of its stack.
theorem Runs.run_eq (h : Runs t tokens s p q result n) (hin : input.Delivers tokens)
    (goals : List Goal) (built : List Tree) (fuel : Nat) :
    run (step t input) (n + fuel) (.next (stateAt tokens p (s.map .symbol ++ goals) built)) =
      match result with
      | .ok trees => run (step t input) fuel (.next (stateAt tokens q goals (trees.reverse ++ built)))
      | .error e => some ⟨.failed (.rejected e), q + 1⟩ := by
  induction h generalizing goals built fuel with
  | nil => rw [Nat.zero_add]; rfl
  | @shift i p q n s result hla hs ih =>
      rw [show n + 1 + fuel = n + fuel + 1 by omega, List.map_cons, List.cons_append, run,
        step_shift hin hla, ih]
      cases result with
      | error e => rfl
      | ok trees => simp [Except.map]
  | mismatch hla =>
      rw [Nat.add_comm 1 fuel, List.map_cons, List.cons_append, run, step_mismatch hla]
      cases fuel <;> rfl
  | @expand i p m q n n' la r s children result hla hr hc hs ihc ihs =>
      rw [show n + n' + 2 + fuel = n + (n' + fuel + 1) + 1 by omega, List.map_cons,
        List.cons_append, run, step_expand hla hr, ihc]
      show run (step t input) (n' + fuel + 1) _ = _
      rw [run, step_close, reduce_eq r hc.length_eq, ihs]
      cases result with
      | error e => rfl
      | ok trees => simp [Except.map]
  | @inside i p q n la r s e hla hr hc ih =>
      rw [show n + 1 + fuel = n + fuel + 1 by omega, List.map_cons, List.cons_append, run,
        step_expand hla hr, ih]
  | refuse hr =>
      rw [Nat.add_comm 1 fuel, List.map_cons, List.cons_append, run, step_refuse hr]
      cases fuel <;> rfl

-- How a parse ends with a run for the start symbol.
def conclude (t : Table) (tokens : Nat → Token) (q : Nat) :
    Except SyntaxError (List Tree) → Outcome
  | .error e => .failed (.rejected e)
  | .ok trees =>
    if lookahead t tokens q = some .endOfInput then .accepted (trees.headD .missing)
    else .failed (.rejected (.unexpected .endOfInput (lookahead t tokens q) (tokens q)))

theorem step_end (trees : List Tree) :
    step t input (stateAt tokens q [.symbol .endOfInput] trees) =
      .done ⟨conclude t tokens q (.ok trees), q + 1⟩ := by
  unfold conclude lookahead
  by_cases h : t.grammar.terminal? (tokens q).type = some .endOfInput
  · simp only [step, choice, stateAt, h, if_true]
  · simp only [step, choice, stateAt, h, if_false]

theorem parseWithin_eq (h : Runs t tokens [.nonterminal t.grammar.start] 0 q result n)
    (hin : input.Delivers tokens) (hl : t.isLeftRecursive = false) {fuel : Nat} (hf : n < fuel) :
    parseWithin fuel (some t) (some input) = some ⟨conclude t tokens q result, q + 1⟩ := by
  obtain ⟨k, rfl⟩ := Nat.exists_eq_add_of_lt hf
  have hrun := h.run_eq hin [.symbol .endOfInput] [] (k + 1)
  simp only [parseWithin, guarded, hl, Bool.false_eq_true, if_false, begin, pull_eq hin]
  refine Eq.trans hrun ?_
  cases result with
  | error e => rfl
  | ok trees =>
      obtain ⟨tree, rfl⟩ := List.length_eq_one_iff.mp h.length_eq
      show run (step t input) (k + 1) (.next (stateAt tokens q [.symbol .endOfInput] [tree])) = _
      rw [run, step_end]
      cases k <;> rfl

end Parser

end Lookahead
