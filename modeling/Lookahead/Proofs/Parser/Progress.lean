import Lookahead.Proofs.Parser.Run
import Lookahead.Proofs.Source
import Lookahead.Proofs.Table.Verdict
import Lookahead.Proofs.Tree.Forest

/-!
Without left recursion there is a run for every string on every source that comes to an end. A chain
of expansions under one lookahead goes down the left corners, so that their rank bounds it; what
stands behind a symbol that does not vanish waits for another token.
-/

namespace Lookahead

-- What a parser needs of its table: a look-up does not fail, and finds a rule for the non-terminal.
structure Table.IsSound (t : Table) : Prop where
  wellFormed : t.grammar.WellFormed
  isLeftRecursive_iff : t.isLeftRecursive = true ↔ t.grammar.IsLeftRecursive
  lookup : ∀ i la, la.isNonterminal = false → ∃ rule?,
    t.lookup (.nonterminal i) la = .ok rule? ∧ ∀ r ∈ rule?, r ∈ t.grammar.rules ∧ r.lhs = i

theorem Table.isSound_of_build {g : Grammar} {t : Table} {options : List Policy}
    (hb : build g.analyse options = .ok t) (hg : g.WellFormed) (hsmall : g.rules.length < 2 ^ 31) :
    t.grammar = g ∧ t.IsSound := by
  have hgrammar := grammar_of_build hb hg hsmall
  refine ⟨hgrammar, hgrammar ▸ hg, hgrammar ▸ isLeftRecursive_iff hb hg hsmall,
    fun i la hla => ⟨_, lookup_eq hb hg hsmall i hla, ?_⟩⟩
  intro r hr
  obtain ⟨hr, hl, -⟩ := mem_eligible.mp (List.mem_of_mem_head? hr)
  exact ⟨hgrammar ▸ hr, hl⟩

theorem Table.IsSound.not_isLeftRecursive {t : Table} (ht : t.IsSound)
    (hl : t.isLeftRecursive = false) : ¬t.grammar.IsLeftRecursive := by
  rw [← ht.isLeftRecursive_iff, hl]
  exact Bool.false_ne_true

theorem Table.IsSound.mem_rules {t : Table} (ht : t.IsSound) {type : TokenType} {i : Nat}
    {la : Symbol} {r : Rule} (hla : t.grammar.terminal? type = some la)
    (hr : t.lookup (.nonterminal i) la = .ok (some r)) : r ∈ t.grammar.rules ∧ r.lhs = i := by
  obtain ⟨rule?, hrule, hall⟩ := ht.lookup i la (Grammar.isNonterminal_terminal? hla)
  rw [hr] at hrule
  cases hrule
  exact hall r rfl

namespace Parser

open Lookahead.Tree

variable {t : Table} {tokens : Nat → Token} {s : List Symbol} {p q n e : Nat}
  {result : Except SyntaxError (List Tree)} {trees : List Tree}

theorem lt_end (hend : ∀ i ≥ e, (tokens i).type = TokenType.endOfInput) {i : Nat}
    (hla : lookahead t tokens p = some (.terminal i)) : p < e := by
  by_contra hp
  exact Grammar.type_ne_endOfInput hla (hend p (by omega))

namespace Runs

-- A run never goes beyond the end of input.
theorem le_end (h : Runs t tokens s p q result n)
    (hend : ∀ i ≥ e, (tokens i).type = TokenType.endOfInput) : q ≤ max p e := by
  induction h with
  | nil => exact Nat.le_max_left _ _
  | @shift i p q n s result hla _ ih =>
      have hp := lt_end hend hla
      omega
  | mismatch => exact Nat.le_max_left _ _
  | expand _ _ _ _ ihc ihs => omega
  | inside _ _ _ ih => exact ih
  | refuse => exact Nat.le_max_left _ _

-- The trees of a run are trees for its symbols, and hold the tokens it has consumed.
theorem forest (h : Runs t tokens s p q (.ok trees) n) (ht : t.IsSound) :
    t.grammar.Forest s trees ∧ tokensOfAll trees = (slice tokens p q).map some := by
  induction h using ok_induction with
  | nil => exact ⟨.nil, by rw [slice_self]; rfl⟩
  | shift hla hs ih =>
      obtain ⟨hforest, htokens⟩ := ih
      refine ⟨.leaf hla hforest, ?_⟩
      rw [tokensOfAll_leaf, htokens, slice_eq_cons tokens hs.le, List.map_cons]
  | expand hla hr hc hs ihc ihs =>
      obtain ⟨hchildren, htokens⟩ := ihc
      obtain ⟨hforest, hmore⟩ := ihs
      obtain ⟨hmem, rfl⟩ := ht.mem_rules hla hr
      refine ⟨.branch hmem hchildren hforest, ?_⟩
      rw [tokensOfAll_branch, htokens, hmore, ← slice_append tokens hc.le hs.le, List.map_append]

-- A string that is parsed without a token derives the empty one.
theorem derives_nil (h : Runs t tokens s p p (.ok trees) n) (ht : t.IsSound) :
    t.grammar.Derives s [] := by
  obtain ⟨hforest, htokens⟩ := h.forest ht
  exact hforest.derives_nil (by rw [htokens, slice_self, List.map_nil])

end Runs

-- There is a run for the string `s` from position `p`.
def HasRun (t : Table) (tokens : Nat → Token) (s : List Symbol) (p : Nat) : Prop :=
  ∃ q result n, Runs t tokens s p q result n

theorem hasRun_cons_terminal {i : Nat}
    (hs : lookahead t tokens p = some (.terminal i) → HasRun t tokens s (p + 1)) :
    HasRun t tokens (.terminal i :: s) p := by
  by_cases hla : lookahead t tokens p = some (.terminal i)
  · obtain ⟨q, result, n, h⟩ := hs hla
    exact ⟨_, _, _, .shift hla h⟩
  · exact ⟨_, _, _, .mismatch hla⟩

theorem hasRun_cons_nonterminal (ht : t.IsSound)
    (hend : ∀ i ≥ e, (tokens i).type = TokenType.endOfInput) {i : Nat}
    (hc : ∀ r ∈ t.grammar.rules, r.lhs = i → HasRun t tokens r.rhs p)
    (hs : ∀ m, p ≤ m → m ≤ max p e → (m = p → t.grammar.Derives [.nonterminal i] []) →
      HasRun t tokens s m) :
    HasRun t tokens (.nonterminal i :: s) p := by
  cases hla : lookahead t tokens p with
  | none => exact ⟨_, _, _, .refuse (by simp [hla])⟩
  | some la =>
      obtain ⟨rule?, hrule, hall⟩ := ht.lookup i la (Grammar.isNonterminal_terminal? hla)
      cases rule? with
      | none => exact ⟨_, _, _, .refuse (by simpa [hla] using hrule)⟩
      | some r =>
          obtain ⟨hmem, rfl⟩ := hall r rfl
          obtain ⟨m, children, n, h⟩ := hc r hmem rfl
          cases children with
          | error e => exact ⟨_, _, _, .inside hla hrule h⟩
          | ok children =>
              have hvanish : m = p → t.grammar.Derives [.nonterminal r.lhs] [] := by
                rintro rfl
                exact (Grammar.derives_rule hmem).trans (h.derives_nil ht)
              obtain ⟨q, result, n', h'⟩ := hs m h.le (h.le_end hend) hvanish
              exact ⟨_, _, _, .expand hla hrule h h'⟩

-- There is a run for a string if there is one for every rule it may lead to under the lookahead,
-- and one for every string under a later one.
theorem hasRun_of_front (ht : t.IsSound) (hend : ∀ i ≥ e, (tokens i).type = TokenType.endOfInput)
    (hs : ∀ x ∈ s, t.grammar.Declares x)
    (hfront : ∀ u i v, s = u ++ .nonterminal i :: v → t.grammar.Derives u [] →
      ∀ r ∈ t.grammar.rules, r.lhs = i → HasRun t tokens r.rhs p)
    (hlater : ∀ m, p < m → m ≤ e → ∀ s, (∀ x ∈ s, t.grammar.Declares x) → HasRun t tokens s m) :
    HasRun t tokens s p := by
  induction s with
  | nil => exact ⟨_, _, _, .nil⟩
  | cons x s ih =>
      have hrest : ∀ x ∈ s, t.grammar.Declares x := fun x hx => hs x (List.mem_cons_of_mem _ hx)
      cases x with
      | endOfInput => exact (hs .endOfInput List.mem_cons_self).elim
      | terminal i =>
          apply hasRun_cons_terminal
          intro hla
          have hp := lt_end hend hla
          exact hlater (p + 1) (by omega) (by omega) s hrest
      | nonterminal i =>
          apply hasRun_cons_nonterminal ht hend (hfront [] i s rfl (.refl []))
          intro m hm hme hvanish
          rcases Nat.eq_or_lt_of_le hm with rfl | hm
          · apply ih hrest
            intro u j v he hu
            exact hfront (.nonterminal i :: u) j v (by rw [he]; rfl)
              (Grammar.derives_nil_cons.mpr ⟨hvanish rfl, hu⟩)
          · exact hlater m hm (by omega) s hrest

-- Under one lookahead, rules are expanded along left corners.
theorem hasRun_of_later (ht : t.IsSound) (hl : ¬t.grammar.IsLeftRecursive)
    (hend : ∀ i ≥ e, (tokens i).type = TokenType.endOfInput)
    (hlater : ∀ m, p < m → m ≤ e → ∀ s, (∀ x ∈ s, t.grammar.Declares x) → HasRun t tokens s m)
    (hs : ∀ x ∈ s, t.grammar.Declares x) : HasRun t tokens s p := by
  have hrules : ∀ k i, t.grammar.rank i = k → ∀ r ∈ t.grammar.rules, r.lhs = i →
      HasRun t tokens r.rhs p := by
    intro k
    induction k using Nat.strong_induction_on with
    | _ k ih =>
        intro i hk r hr hlhs
        apply hasRun_of_front ht hend (ht.wellFormed.rhs_declared r hr) _ hlater
        intro u j v he hu r' hr' hj
        have hcorner : t.grammar.LeftCorner i j := ⟨r, hr, hlhs, u, v, he, hu⟩
        have hrank := ht.wellFormed.rank_lt hl hcorner
        exact ih _ (by omega) j rfl r' hr' hj
  exact hasRun_of_front ht hend hs (fun u i v _ _ => hrules _ i rfl) hlater

-- The tokens left before the end of input decrease from one lookahead to the next.
theorem hasRun (ht : t.IsSound) (hl : ¬t.grammar.IsLeftRecursive)
    (hend : ∀ i ≥ e, (tokens i).type = TokenType.endOfInput)
    (hs : ∀ x ∈ s, t.grammar.Declares x) (p : Nat) : HasRun t tokens s p := by
  induction hk : e - p using Nat.strong_induction_on generalizing p s with
  | _ k ih =>
      apply hasRun_of_later ht hl hend _ hs
      intro m hm hme s hs
      exact ih (e - m) (by omega) hs m rfl

end Parser

end Lookahead
