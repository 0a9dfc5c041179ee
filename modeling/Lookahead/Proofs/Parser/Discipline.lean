import Lookahead.Proofs.Builder.SymbolTable
import Lookahead.Proofs.Parser.Action
import Lookahead.Proofs.Parser.Consumption
import Lookahead.Proofs.Parser.Engine

/-!
Which tokens a parse asks for. It pulls one token more than it matches, stops at the first token for
the end of input, and tells how it ends by the last token it has pulled. What the source would have
delivered after that makes no difference.
-/

namespace Lookahead

-- Whether a table has been made for a grammar that some builder has returned, by whatever attempt.
def Table.IsBuilt (t : Table) : Prop :=
  ∃ name history g options, (Builder.after name history).build.2 = .ok g ∧
    build g.analyse options = .ok t

theorem Table.analysis_of_build {a : Analysis} {options : List Policy} {t : Table}
    (h : build a options = .ok t) : t.analysis = a := by
  rw [build] at h
  cases hm : enterRules a (Matrix.empty a.grammar.nonterminals.length a.grammar.columnCount
    Matrix.defaultNull) a.grammar.rules with
  | error fault => rw [hm] at h; cases h
  | ok entered => rw [hm] at h; cases h; rfl

-- The end of input does not occur in rules.
theorem Table.IsBuilt.endOfInput_notMem {t : Table} (ht : t.IsBuilt) :
    ∀ r ∈ t.grammar.rules, .endOfInput ∉ r.rhs := by
  obtain ⟨name, history, g, options, hg, hb⟩ := ht
  have hgrammar : t.grammar = g := by rw [grammar, analysis_of_build hb]; rfl
  have hsymbols : g.HasSymbols := (Builder.isSound_after name history).build.hasSymbols g
    (Builder.built_of_build hg).1
  rw [hgrammar]
  exact fun r hr hx => hsymbols.rhs_declared r hr _ hx

namespace Parser

open Lookahead.Tree

-- The terminals that are matched within so many steps, with their tokens.
def matchesWithin (t : Table) (input : Input) :
    (fuel : Nat) → Progress State → List (Symbol × Token)
  | fuel + 1, .next s => (s.match? t).toList ++ matchesWithin t input fuel (step t input s)
  | _, _ => []

-- How many trees there will be in front of the end of input, with so many of them built by now.
def treesAt : List Goal → (built : Nat) → Nat
  | [], built => built
  | .symbol .endOfInput :: _, built => built
  | .symbol _ :: goals, built => treesAt goals (built + 1)
  | .close r :: goals, built => treesAt goals (built - r.rhs.length + 1)

-- What is known about the end of a run from the matches of which it consists. The tokens are those
-- from position `p` on, and `front` are leaves that have been there before.
structure Accounts (tokens : Nat → Token) (p : Nat) (front : List (Symbol × Option Token))
    (found : List (Symbol × Token)) (outcome : Outcome) : Prop where
  tokens_eq : found.map (·.2) = slice tokens p (p + found.length)
  type_ne : ∀ m ∈ found, m.2.type ≠ TokenType.endOfInput
  accepted : ∀ tree, outcome = .accepted tree →
    tree.leaves = front ++ found.map (fun m => (m.1, some m.2)) ∧
      (tokens (p + found.length)).type = TokenType.endOfInput
  rejected : ∀ e, outcome = .failed (.rejected e) → e.token = some (tokens (p + found.length))

variable {t : Table} {input : Input} {tokens : Nat → Token} {p fuel : Nat} {s : State}
  {front : List (Symbol × Option Token)} {found : List (Symbol × Token)} {outcome : Outcome}
  {goals : List Goal} {built : List Tree} {r : Rule}

theorem matchesWithin_done (t : Table) (input : Input) (fuel : Nat) (report : Report) :
    matchesWithin t input fuel (.done report) = [] := by
  cases fuel <;> rfl

theorem length_matchesWithin (fuel : Nat) (progress : Progress State) :
    (matchesWithin t input fuel progress).length = matchedWithin t input fuel progress := by
  have hstep : ∀ s : State, (s.match? t).toList.length = (s.matchesTerminal t).toNat := by
    intro s
    rw [State.match?, State.matchesTerminal]
    rcases s.goals with _ | ⟨x | r, goals⟩
    · rfl
    · cases x with
      | terminal i => by_cases h : t.grammar.terminal? s.token.type = some (.terminal i) <;> simp [h]
      | _ => rfl
    · rfl
  induction fuel generalizing progress with
  | zero => cases progress <;> rfl
  | succ fuel ih =>
      cases progress with
      | done report => rfl
      | next s => rw [matchesWithin, matchedWithin, List.length_append, hstep, ih]

theorem treesAt_symbols {x : List Symbol} (hx : .endOfInput ∉ x) (goals : List Goal) (n : Nat) :
    treesAt (x.map .symbol ++ goals) n = treesAt goals (n + x.length) := by
  induction x generalizing n with
  | nil => rfl
  | cons y x ih =>
      rw [List.mem_cons, not_or] at hx
      have hy : treesAt ((y :: x).map .symbol ++ goals) n =
          treesAt (x.map .symbol ++ goals) (n + 1) := by
        cases y with
        | endOfInput => exact absurd rfl hx.1
        | _ => rfl
      rw [hy, ih hx.2, List.length_cons, Nat.add_right_comm, Nat.add_assoc]

theorem length_reduce (r : Rule) (built : List Tree) :
    (reduce r built).length = built.length - r.rhs.length + 1 := by
  rw [reduce, List.length_cons, List.length_drop]

-- Trees that are put together keep their leaves.
theorem leavesOfAll_reduce (r : Rule) (built : List Tree) :
    leavesOfAll (reduce r built).reverse = leavesOfAll built.reverse := by
  have hbranch : leavesOfAll [branch (some r) (built.take r.rhs.length).reverse] =
      leavesOfAll (built.take r.rhs.length).reverse := by
    rw [leavesOfAll, leavesOfAll, leaves, List.append_nil]
  rw [reduce, List.reverse_cons, leavesOfAll_append, hbranch, ← leavesOfAll_append,
    ← List.reverse_append, List.take_append_drop]

theorem leavesOfAll_shift (i : Nat) (token : Token) (built : List Tree) :
    leavesOfAll (leaf (some (.terminal i)) (some token) :: built).reverse =
      leavesOfAll built.reverse ++ [(.terminal i, some token)] := by
  rw [List.reverse_cons, leavesOfAll_append]
  rfl

-- A match in front of the others.
theorem Accounts.shift {x : Symbol} (hne : (tokens p).type ≠ TokenType.endOfInput)
    (h : Accounts tokens (p + 1) (front ++ [(x, some (tokens p))]) found outcome) :
    Accounts tokens p front ((x, tokens p) :: found) outcome := by
  have hlast : p + ((x, tokens p) :: found).length = p + 1 + found.length := by
    rw [List.length_cons]
    omega
  refine ⟨?_, List.forall_mem_cons.mpr ⟨hne, h.type_ne⟩, fun tree he => ?_, fun e he => ?_⟩
  · rw [hlast, slice_eq_cons tokens (by omega), List.map_cons, h.tokens_eq]
  · obtain ⟨hleaves, hend⟩ := h.accepted tree he
    rw [hlast, List.map_cons]
    exact ⟨by simpa using hleaves, hend⟩
  · rw [hlast]
    exact h.rejected e he

-- A run that ends without another match.
theorem Accounts.nil
    (haccepted : ∀ tree, outcome = .accepted tree →
      tree.leaves = front ∧ (tokens p).type = TokenType.endOfInput)
    (hrejected : ∀ e, outcome = .failed (.rejected e) → e.token = some (tokens p)) :
    Accounts tokens p front [] outcome :=
  ⟨(slice_self tokens p).symm, by simp, by simpa using haccepted, hrejected⟩

theorem accounts_run (hrules : ∀ r ∈ t.grammar.rules, .endOfInput ∉ r.rhs)
    (hin : input.Delivers tokens) {report : Report} (htrees : treesAt goals built.length = 1)
    (h : run (step t input) fuel (.next (stateAt tokens p goals built)) = some report) :
    Accounts tokens p (leavesOfAll built.reverse)
      (matchesWithin t input fuel (.next (stateAt tokens p goals built))) report.outcome := by
  induction fuel generalizing p goals built with
  | zero => cases h
  | succ fuel ih =>
      obtain ⟨act, hact, hstep⟩ := exists_acts t (stateAt tokens p goals built)
      rw [run, hstep] at h
      rw [matchesWithin, hstep]
      cases hact with
      | @shift i rest hgoals hla hmatch =>
          obtain rfl : goals = .symbol (.terminal i) :: rest := hgoals
          have hpull := pull_eq hin (p + 1) rest (.leaf (some (.terminal i)) (some (tokens p)) :: built)
          simp only [stateAt] at h hmatch ⊢
          rw [hpull] at h
          rw [hmatch, hpull]
          have htrees' : treesAt rest
              (Tree.leaf (some (.terminal i)) (some (tokens p)) :: built).length = 1 := htrees
          have hrest := ih htrees' h
          rw [leavesOfAll_shift] at hrest
          exact hrest.shift (Grammar.type_ne_endOfInput hla)
      | @expand i r rest hgoals hr hmatch =>
          obtain rfl : goals = .symbol (.nonterminal i) :: rest := hgoals
          rw [hmatch]
          refine ih ?_ h
          rw [treesAt_symbols (hrules r hr), treesAt, Nat.add_sub_cancel]
          exact htrees
      | @close r rest hgoals hmatch =>
          obtain rfl : goals = .close r :: rest := hgoals
          rw [hmatch, ← leavesOfAll_reduce r built]
          refine ih ?_ h
          rw [length_reduce]
          exact htrees
      | @accept rest hgoals hla hmatch =>
          obtain rfl : goals = .symbol .endOfInput :: rest := hgoals
          obtain ⟨tree, rfl⟩ := List.length_eq_one_iff.mp htrees
          rw [run_done] at h
          cases h
          rw [hmatch, matchesWithin_done]
          refine .nil (fun tree' he => ?_) (by simp)
          cases he
          exact ⟨by simp [leavesOfAll, stateAt], type_of_lookahead hla⟩
      | reject htoken hmatch =>
          rw [run_done] at h
          cases h
          rw [hmatch, matchesWithin_done]
          refine .nil (by simp) (fun e he => ?_)
          cases he
          exact htoken
      | breakDown hmatch =>
          rw [run_done] at h
          cases h
          rw [hmatch, matchesWithin_done]
          exact .nil (by simp) (by simp)

-- A parse that ends has pulled one token more than it has matched. The tokens it has matched are
-- the leaves of its tree, the last one it has pulled is the first one for the end of input or the
-- one a syntax error is about, and it ends in the same way on all sources that deliver the same
-- tokens up to there.
theorem pull_discipline {t : Table} (ht : t.IsBuilt) (hl : t.isLeftRecursive = false)
    {source : Source} {tokens : Nat → Token} (hsource : ∀ i, source i = .token (tokens i))
    {fuel : Nat} {report : Report}
    (hrun : parseWithin fuel (some t) (some (.ofSource source)) = some report)
    {found : List (Symbol × Token)}
    (hfound : matchesWithin t (.ofSource source) fuel (begin t (.ofSource source)) = found) :
    report.pulls = found.length + 1 ∧
      found.map (·.2) = slice tokens 0 found.length ∧
      (∀ tree, report.outcome = .accepted tree →
        tree.leaves = found.map (fun m => (m.1, some m.2)) ∧
          (tokens found.length).type = TokenType.endOfInput) ∧
      (∀ e, report.outcome = .failed (.rejected e) → e.token = some (tokens found.length)) ∧
      (∀ i, (tokens i).type = TokenType.endOfInput → report.pulls ≤ i + 1) ∧
      ∀ (n : Nat) (other : Source), (∀ i < n, other i = source i) → report.pulls ≤ n →
        parseWithin fuel (some t) (some (.ofSource other)) = some report := by
  have hin : (Input.ofSource source).Delivers tokens := ⟨hsource, fun _ => rfl⟩
  have hbegin := pull_eq hin 0 [.symbol (.nonterminal t.grammar.start), .symbol .endOfInput] []
  simp only [parseWithin, guarded, hl, Bool.false_eq_true, if_false] at hrun ⊢
  have hpulls : report.pulls = found.length + 1 := by
    rw [begin, hbegin] at hrun hfound
    rw [pulls_run hin hrun, ← hfound, length_matchesWithin, Nat.add_comm]
    rfl
  have haccounts : Accounts tokens 0 [] found report.outcome := by
    rw [begin, hbegin] at hrun hfound
    exact hfound ▸ accounts_run ht.endOfInput_notMem hin rfl hrun
  obtain ⟨htokens, hne, haccepted, hrejected⟩ := haccounts
  rw [Nat.zero_add] at htokens haccepted hrejected
  refine ⟨hpulls, htokens, haccepted, hrejected, fun i hi => ?_, fun n other hother hn => ?_⟩
  · -- all tokens in front of the last one have been matched
    by_contra hlt
    have hmem : tokens i ∈ found.map (·.2) := by
      rw [htokens]
      exact List.mem_map_of_mem (List.mem_range'_1.mpr ⟨Nat.zero_le i, by omega⟩)
    obtain ⟨m, hm, htoken⟩ := List.mem_map.mp hmem
    exact hne m hm (htoken ▸ hi)
  · have hagree : (Input.ofSource source).AgreesUntil n (.ofSource other) :=
      ⟨hother, fun _ _ => rfl, rfl⟩
    have hsame : begin t (.ofSource other) = begin t (.ofSource source) :=
      pull_agrees hagree (by omega) _ _
    rw [hsame, (run_agrees hin.isCancelled hagree ((pullsWithin_of_run hrun).trans_le hn)).1, hrun]

-- Three tokens and the end of input are pulled for a sum, and nothing has to be behind them.
theorem pull_discipline_sum :
    ∃ t tree fuel, Table.build Expression.grammar.analyse [] = .ok t ∧
      tree.tokens = sumTokens.map some ∧
      ∀ source ∈ [TokenList.source sumTokens, (TokenList.source sumTokens).exhaustedAfter 4],
        parseWithin fuel (some t) (some (.ofSource source)) = some ⟨.accepted tree, 4⟩ := by
  obtain ⟨t, tree, pulls, hb, hl, -, hparse⟩ := exists_sumTree
  obtain ⟨name, history, -, hg⟩ := Expression.isFirstBuild
  obtain ⟨found, hfound⟩ : ∃ found, matchesWithin t (.ofSource (TokenList.source sumTokens))
    (stepBound t.grammar sumTokens.length) (begin t (.ofSource (TokenList.source sumTokens))) =
      found := ⟨_, rfl⟩
  obtain ⟨hpulls, htokens, haccepted, -, hend, hother⟩ :=
    pull_discipline ⟨name, history, _, [], hg, hb⟩ hl (fun _ => rfl) hparse hfound
  obtain ⟨hleaves, hlast⟩ := haccepted tree rfl
  -- only the token behind the three is one for the end of input
  have hlength : found.length = 3 := by
    have hle : pulls ≤ 4 := hend 3 (by decide)
    have hinput : ∀ i < 3, (TokenList.pull sumTokens i).type ≠ TokenType.endOfInput := by decide
    have hge : ¬found.length < 3 := fun hlt => hinput _ hlt hlast
    simp only at hpulls
    omega
  obtain rfl : pulls = 4 := hpulls.trans (congrArg (· + 1) hlength)
  have hslice : slice (TokenList.pull sumTokens) 0 3 = sumTokens := TokenList.slice_pull (by decide)
  have htokens' : found.map (·.2) = sumTokens := by rw [htokens, hlength, hslice]
  refine ⟨t, tree, stepBound t.grammar sumTokens.length, hb, ?_, ?_⟩
  · rw [Tree.tokens, hleaves, ← htokens', List.map_map, List.map_map]
    rfl
  · simp only [List.forall_mem_cons, List.not_mem_nil, false_imp_iff, implies_true, and_true]
    exact ⟨hparse, hother 4 _ (fun i hi => if_pos hi) (Nat.le_refl 4)⟩

end Parser

end Lookahead
