import Lookahead.Proofs.Parser.Progress

/-!
How many steps a run takes, and that the bound of the parser leaves enough of them.

Under one lookahead, a non-terminal of rank `k` costs less than a power of the width of the rules
with exponent `k + 1`. When tokens are consumed, the chain of expansions that leads to each of them
adds at most one full right-hand side for every rank.
-/

namespace Lookahead

namespace Grammar

-- The length of the longest right-hand side.
def width (g : Grammar) : Nat := (g.rules.map (·.rhs.length)).foldl max 0

-- A bound on the steps of a run for `l` symbols that consumes `c` tokens, if the non-terminals
-- under the first lookahead have ranks below `k`.
def cost (g : Grammar) (l k : Nat) : (c : Nat) → Nat
  | 0 => l * (g.width + 2) ^ k
  | c + 1 =>
    l * (g.width + 2) ^ (g.nonterminals.length + 1) +
      (k + (g.nonterminals.length + 1) * c) * (g.width + 2) ^ (g.nonterminals.length + 2)

variable {g : Grammar} {r : Rule} {s : List Symbol} {l l' k k' c a b : Nat}

theorem le_foldl_max (l : List Nat) (start : Nat) :
    start ≤ l.foldl max start ∧ ∀ x ∈ l, x ≤ l.foldl max start := by
  induction l generalizing start with
  | nil => simp
  | cons y l ih =>
      obtain ⟨hs, hl⟩ := ih (max start y)
      refine ⟨by rw [List.foldl_cons]; omega, fun x hx => ?_⟩
      rw [List.foldl_cons]
      rcases List.mem_cons.mp hx with rfl | hx
      · omega
      · exact hl x hx

theorem length_rhs_le (hr : r ∈ g.rules) : r.rhs.length ≤ g.width :=
  (le_foldl_max _ 0).2 _ (List.mem_map_of_mem hr)

theorem power_mono (h : k ≤ k') : (g.width + 2) ^ k ≤ (g.width + 2) ^ k' :=
  Nat.pow_le_pow_right (by omega) h

-- What a right-hand side costs without a token, with the expansion and the closing of its rule.
theorem cost_zero_lt (hl : l ≤ g.width) (hk : k < k') :
    g.cost l k 0 + 2 ≤ (g.width + 2) ^ k' := by
  have hpos : 0 < (g.width + 2) ^ k := Nat.pow_pos (by omega)
  calc g.cost l k 0 + 2
      ≤ g.width * (g.width + 2) ^ k + 2 * (g.width + 2) ^ k :=
        Nat.add_le_add (Nat.mul_le_mul_right _ hl) (by omega)
    _ = (g.width + 2) ^ (k + 1) := by rw [← Nat.add_mul, Nat.pow_succ']
    _ ≤ (g.width + 2) ^ k' := power_mono hk

-- What a right-hand side costs when it consumes a token.
theorem cost_succ_lt (hl : l ≤ g.width) (hk : k < k') :
    g.cost l k (c + 1) + 2 ≤
      (k' + (g.nonterminals.length + 1) * c) * (g.width + 2) ^ (g.nonterminals.length + 2) := by
  have hlast := cost_zero_lt hl (Nat.lt_succ_self (g.nonterminals.length + 1))
  rw [cost] at hlast
  calc g.cost l k (c + 1) + 2
      = (l * (g.width + 2) ^ (g.nonterminals.length + 1) + 2) +
          (k + (g.nonterminals.length + 1) * c) * (g.width + 2) ^ (g.nonterminals.length + 2) := by
        rw [cost]
        omega
    _ ≤ (1 + (k + (g.nonterminals.length + 1) * c)) *
          (g.width + 2) ^ (g.nonterminals.length + 2) := by
        rw [Nat.add_mul 1, Nat.one_mul]
        exact Nat.add_le_add_right hlast _
    _ ≤ _ := Nat.mul_le_mul_right _ (by omega)

theorem cost_le (hk : k ≤ g.nonterminals.length + 1) :
    g.cost l k c ≤ l * (g.width + 2) ^ (g.nonterminals.length + 1) +
      (g.nonterminals.length + 1) * c * (g.width + 2) ^ (g.nonterminals.length + 2) := by
  cases c with
  | zero => exact Nat.le_add_right_of_le (Nat.mul_le_mul_left _ (power_mono hk))
  | succ c =>
      apply Nat.add_le_add_left
      apply Nat.mul_le_mul_right
      rw [Nat.mul_succ]
      omega

theorem cost_pos : 1 ≤ g.cost (l + 1) k 0 :=
  Nat.mul_pos (Nat.succ_pos l) (Nat.pow_pos (by omega))

theorem cost_shift : g.cost l (g.nonterminals.length + 1) c + 1 ≤ g.cost (l + 1) k (c + 1) := by
  have hrest := cost_le (g := g) (l := l) (c := c) (Nat.le_refl _)
  have hpos : 0 < (g.width + 2) ^ (g.nonterminals.length + 1) := Nat.pow_pos (by omega)
  rw [cost, Nat.add_mul l, Nat.add_mul k]
  omega

-- A non-terminal with what stands behind it, where `a` tokens are consumed by the right-hand side
-- of its rule and `b` tokens behind it.
theorem cost_cons (hl : l' ≤ g.width) (hk : k' < k) (hlast : k ≤ g.nonterminals.length + 1) :
    g.cost l' k' a + 2 + g.cost l (if a = 0 then k else g.nonterminals.length + 1) b ≤
      g.cost (l + 1) k (a + b) := by
  cases a with
  | zero =>
      have hhead := cost_zero_lt hl hk
      rw [if_pos rfl, Nat.zero_add]
      cases b with
      | zero =>
          rw [cost.eq_1 g l, cost.eq_1 g (l + 1), Nat.add_mul l]
          omega
      | succ b =>
          have hp := power_mono (g := g) hlast
          rw [cost.eq_2 g l, cost.eq_2 g (l + 1), Nat.add_mul l]
          omega
  | succ a =>
      have hhead := cost_succ_lt (c := a) hl hk
      have hrest := cost_le (g := g) (l := l) (c := b) (Nat.le_refl _)
      rw [if_neg (Nat.succ_ne_zero a), Nat.add_right_comm a 1 b, cost.eq_2 g (l + 1),
        Nat.add_mul l, Nat.mul_add _ a b, ← Nat.add_assoc k, Nat.add_mul _ _ (_ ^ _)]
      omega

-- The non-terminals a string leads to without a token have ranks below `k`.
def LeadsBelow (g : Grammar) (k : Nat) (s : List Symbol) : Prop :=
  ∀ u i v, s = u ++ .nonterminal i :: v → g.Derives u [] → g.rank i < k

theorem WellFormed.leadsBelow_last (hg : g.WellFormed) (s : List Symbol) :
    g.LeadsBelow (g.nonterminals.length + 1) s :=
  fun _ i _ _ _ => Nat.lt_succ_of_le (hg.rank_le i)

theorem WellFormed.leadsBelow_rhs (hg : g.WellFormed) (hl : ¬g.IsLeftRecursive)
    (hr : r ∈ g.rules) : g.LeadsBelow (g.rank r.lhs) r.rhs :=
  fun u _ v he hu => hg.rank_lt hl ⟨r, hr, rfl, u, v, he, hu⟩

theorem LeadsBelow.rank_lt {i : Nat} (h : g.LeadsBelow k (.nonterminal i :: s)) : g.rank i < k :=
  h [] i s rfl (.refl [])

theorem LeadsBelow.tail {x : Symbol} (h : g.LeadsBelow k (x :: s)) (hx : g.Derives [x] []) :
    g.LeadsBelow k s := by
  intro u i v he hu
  exact h (x :: u) i v (by rw [he]; rfl) (derives_nil_cons.mpr ⟨hx, hu⟩)

end Grammar

namespace Parser

variable {t : Table} {tokens : Nat → Token} {input : Input} {s : List Symbol} {p q n e k : Nat}
  {result : Except SyntaxError (List Tree)}

theorem Runs.steps_le (h : Runs t tokens s p q result n) (ht : t.IsSound)
    (hl : ¬t.grammar.IsLeftRecursive) (hk : k ≤ t.grammar.nonterminals.length + 1)
    (hs : t.grammar.LeadsBelow k s) : n ≤ t.grammar.cost s.length k (q - p) := by
  induction h generalizing k with
  | nil => exact Nat.zero_le _
  | @shift i p q n s result hla h ih =>
      have hn := ih (Nat.le_refl _) (ht.wellFormed.leadsBelow_last s)
      have hstep := Grammar.cost_shift (g := t.grammar) (l := s.length) (k := k) (c := q - (p + 1))
      have hle := h.le
      rw [show q - p = q - (p + 1) + 1 by omega, List.length_cons]
      omega
  | mismatch =>
      rw [Nat.sub_self]
      exact Grammar.cost_pos
  | @expand i p m q n n' la r s children result hla hr hc h ihc ihs =>
      obtain ⟨hmem, rfl⟩ := ht.mem_rules hla hr
      have hrank := hs.rank_lt
      have hn := ihc (by omega) (ht.wellFormed.leadsBelow_rhs hl hmem)
      have hn' : n' ≤ t.grammar.cost s.length
          (if m - p = 0 then k else t.grammar.nonterminals.length + 1) (q - m) := by
        split
        · have he : m = p := Nat.le_antisymm (by omega) hc.le
          subst he
          have hvanish := (Grammar.derives_rule hmem).trans (hc.derives_nil ht)
          exact ihs hk (hs.tail hvanish)
        · exact ihs (Nat.le_refl _) (ht.wellFormed.leadsBelow_last s)
      have hcons := Grammar.cost_cons (l := s.length) (a := m - p) (b := q - m)
        (Grammar.length_rhs_le hmem) hrank hk
      have hlec := hc.le
      have hles := h.le
      rw [show m - p + (q - m) = q - p by omega] at hcons
      rw [List.length_cons]
      omega
  | @inside i p q n la r s e hla hr hc ih =>
      obtain ⟨hmem, rfl⟩ := ht.mem_rules hla hr
      have hrank := hs.rank_lt
      have hn := ih (by omega) (ht.wellFormed.leadsBelow_rhs hl hmem)
      have hcons := Grammar.cost_cons (l := s.length) (a := q - p) (b := 0)
        (Grammar.length_rhs_le hmem) hrank hk
      rw [Nat.add_zero (q - p)] at hcons
      rw [List.length_cons]
      omega
  | refuse =>
      rw [Nat.sub_self]
      exact Grammar.cost_pos

-- The parser's own bound is enough for the start symbol and one more step.
theorem Runs.steps_lt_stepBound {i : Nat}
    (h : Runs t tokens [.nonterminal i] 0 q result n) (ht : t.IsSound)
    (hl : ¬t.grammar.IsLeftRecursive)
    (hend : ∀ i ≥ e, (tokens i).type = TokenType.endOfInput) : n < stepBound t.grammar e := by
  have hn := h.steps_le ht hl (Nat.le_refl _) (ht.wellFormed.leadsBelow_last _)
  have hq : q ≤ e := by simpa using h.le_end hend
  show n < 4 * (e + 2) * (t.grammar.nonterminals.length + 2) * (t.grammar.width + 2) ^ _
  have hpos : 0 < (t.grammar.width + 2) ^ (t.grammar.nonterminals.length + 2) :=
    Nat.pow_pos (by omega)
  calc n
      ≤ 1 * (t.grammar.width + 2) ^ (t.grammar.nonterminals.length + 1) +
          (t.grammar.nonterminals.length + 1) * q *
            (t.grammar.width + 2) ^ (t.grammar.nonterminals.length + 2) :=
        hn.trans (Grammar.cost_le (Nat.le_refl _))
    _ ≤ (1 + (t.grammar.nonterminals.length + 1) * e) *
          (t.grammar.width + 2) ^ (t.grammar.nonterminals.length + 2) := by
        rw [Nat.add_mul 1]
        exact Nat.add_le_add (Nat.mul_le_mul_left 1 (Grammar.power_mono (by omega)))
          (Nat.mul_le_mul_right _ (Nat.mul_le_mul_left _ hq))
    _ < 4 * (e + 2) * (t.grammar.nonterminals.length + 2) *
          (t.grammar.width + 2) ^ (t.grammar.nonterminals.length + 2) := by
        apply Nat.mul_lt_mul_of_pos_right _ hpos
        have hle : (t.grammar.nonterminals.length + 1) * e ≤
            (t.grammar.nonterminals.length + 2) * e := Nat.mul_le_mul_right e (by omega)
        rw [Nat.mul_assoc, Nat.mul_comm (e + 2), Nat.mul_add]
        omega

-- A run for the start symbol tells how the parse ends.
theorem Runs.parse_eq (h : Runs t tokens [.nonterminal t.grammar.start] 0 q result n)
    (ht : t.IsSound) (hl : t.isLeftRecursive = false) (hin : input.Delivers tokens)
    (hend : ∀ i ≥ e, (tokens i).type = TokenType.endOfInput) :
    parse (some t) (some input) e = some ⟨conclude t tokens q result, q + 1⟩ :=
  parseWithin_eq h hin hl (h.steps_lt_stepBound ht (ht.not_isLeftRecursive hl) hend)

theorem exists_start_run (ht : t.IsSound) (hl : t.isLeftRecursive = false)
    (hend : ∀ i ≥ e, (tokens i).type = TokenType.endOfInput) :
    HasRun t tokens [.nonterminal t.grammar.start] 0 := by
  apply hasRun ht (ht.not_isLeftRecursive hl) hend
  intro x hx
  rw [List.mem_singleton.mp hx]
  exact ht.wellFormed.start_lt

theorem parse_cases (ht : t.IsSound) (hl : t.isLeftRecursive = false) (hin : input.Delivers tokens)
    (hend : ∀ i ≥ e, (tokens i).type = TokenType.endOfInput) :
    ∃ outcome pulls, parse (some t) (some input) e = some ⟨outcome, pulls⟩ ∧
      ((∃ tree, outcome = .accepted tree ∧ tree.isMissing = false) ∨
        ∃ error, outcome = .failed (.rejected error)) := by
  obtain ⟨q, result, n, h⟩ := exists_start_run ht hl hend
  refine ⟨_, _, h.parse_eq ht hl hin hend, ?_⟩
  cases result with
  | error e => exact .inr ⟨e, rfl⟩
  | ok trees =>
      obtain ⟨tree, rfl⟩ := List.length_eq_one_iff.mp h.length_eq
      by_cases hla : lookahead t tokens q = some .endOfInput
      · have htree := (h.forest ht).1.isMissing_eq_false tree List.mem_cons_self
        exact .inl ⟨tree, if_pos hla, htree⟩
      · exact .inr ⟨_, if_neg hla⟩

-- On a source that comes to an end, a parse ends within its bound with a tree or a syntax error.
theorem parse_ends {g : Grammar} (hg : g.IsFirstBuild) (hsmall : g.rules.length < 2 ^ 31)
    {options : List Policy} {t : Table} (hb : Table.build g.analyse options = .ok t)
    (hl : t.isLeftRecursive = false) {source : Source} {tokens : Nat → Token}
    (hsource : ∀ i, source i = .token (tokens i)) {e : Nat}
    (hend : ∀ i ≥ e, (tokens i).type = TokenType.endOfInput) :
    ∃ outcome pulls, parse (some t) (some (.ofSource source)) e = some ⟨outcome, pulls⟩ ∧
      ((∃ tree, outcome = .accepted tree ∧ tree.isMissing = false) ∨
        ∃ error, outcome = .failed (.rejected error)) := by
  obtain ⟨-, ht⟩ := Table.isSound_of_build hb hg.wellFormed hsmall
  exact parse_cases ht hl ⟨hsource, fun _ => rfl⟩ hend

-- An input that breaks off and goes on with a token the grammar does not know.
theorem parse_ends_expression :
    ∃ t, Table.build Expression.grammar.analyse [] = .ok t ∧ ∃ outcome pulls,
      parse (some t) (some (.ofSource (TokenList.source (TokenList.ofTypes [-3, 0x2B, 0x21])))) 3 =
          some ⟨outcome, pulls⟩ ∧
        ((∃ tree, outcome = .accepted tree ∧ tree.isMissing = false) ∨
          ∃ error, outcome = .failed (.rejected error)) := by
  obtain ⟨t, hb, hl, -⟩ := Table.exists_expressionTable
  refine ⟨t, hb, ?_⟩
  exact parse_ends Expression.isFirstBuild (by decide) hb hl (fun _ => rfl)
    (fun i hi => TokenList.type_pull_of_le hi)

end Parser

end Lookahead
