import Lookahead.Proofs.Parser.Termination

/-!
Which trees the parser finds, for every table: derivation trees over the input in which each branch
has the rule that the table holds for its non-terminal and the token at which it begins.
-/

namespace Lookahead

open Lookahead.Tree

-- The symbol that stands for the token at a position of a list, or behind it for the end of input.
def Grammar.lookaheadIn (g : Grammar) (w : List Token) (k : Nat) : Option Symbol :=
  match w[k]? with
  | some token => g.terminal? token.type
  | none => some .endOfInput

-- Every branch of a tree has the rule that the table holds for its non-terminal and the first token
-- that is not to the left of the branch.
def Table.Dictates (t : Table) (w : List Token) (tree : Tree) : Prop :=
  ∀ k r children, Occurs (.branch (some r) children) k [tree] →
    ∃ la, t.grammar.lookaheadIn w k = some la ∧ t.lookup (.nonterminal r.lhs) la = .ok (some r)

namespace Parser

variable {t : Table} {tokens : Nat → Token} {input : Input} {s : List Symbol} {p q n : Nat}
  {trees : List Tree}

-- The same for trees that begin at some position.
def Guided (t : Table) (tokens : Nat → Token) (p : Nat) (trees : List Tree) : Prop :=
  ∀ k r children, Occurs (.branch (some r) children) k trees →
    ∃ la, lookahead t tokens (p + k) = some la ∧ t.lookup (.nonterminal r.lhs) la = .ok (some r)

theorem guided_nil : Guided t tokens p [] := by
  intro k r children h
  cases h

theorem guided_leaf {i : Nat} {token : Token} :
    Guided t tokens p (.leaf (some (.terminal i)) (some token) :: trees) ↔
      Guided t tokens (p + 1) trees := by
  constructor
  · intro h k r children hk
    have hla := h (1 + k) r children (.later (.leaf (some (.terminal i)) (some token)) hk)
    rwa [← Nat.add_assoc] at hla
  · intro h k r children hk
    cases hk with
    | @later _ _ k hk =>
        have hla := h k r children hk
        rwa [Nat.add_assoc] at hla

theorem guided_branch {r : Rule} {children : List Tree} :
    Guided t tokens p (.branch (some r) children :: trees) ↔
      (∃ la, lookahead t tokens p = some la ∧
        t.lookup (.nonterminal r.lhs) la = .ok (some r)) ∧
      Guided t tokens p children ∧
      Guided t tokens (p + (tokensOfAll children).length) trees := by
  constructor
  · intro h
    refine ⟨h 0 r children .here, fun k r' c hk => h k r' c (.inside hk), fun k r' c hk => ?_⟩
    have hla := h _ r' c (.later _ hk)
    rwa [length_leaves_branch, ← Nat.add_assoc] at hla
  · rintro ⟨hr, hc, hs⟩ k r' c hk
    cases hk with
    | here => exact hr
    | inside hk => exact hc k r' c hk
    | @later _ _ k hk =>
        have hla := hs k r' c hk
        rwa [length_leaves_branch, ← Nat.add_assoc]

theorem Runs.guided (h : Runs t tokens s p q (.ok trees) n) (ht : t.IsSound) :
    Guided t tokens p trees := by
  induction h using Runs.ok_induction with
  | nil => exact guided_nil
  | shift _ _ ih => exact guided_leaf.mpr ih
  | @expand i p m q n n' la r s children trees hla hr hc _ ihc ihs =>
      have hlength : p + (tokensOfAll children).length = m := by
        rw [(hc.forest ht).2, List.length_map, length_slice]
        have hle := hc.le
        omega
      obtain ⟨-, rfl⟩ := ht.mem_rules hla hr
      exact guided_branch.mpr ⟨⟨la, hla, hr⟩, ihc, hlength ▸ ihs⟩

-- Trees that the table dictates are found by a run.
theorem exists_run_of_guided (h : t.grammar.Forest s trees)
    (htokens : tokensOfAll trees = (slice tokens p q).map some) (hpq : p ≤ q)
    (hguided : Guided t tokens p trees) : ∃ n, Runs t tokens s p q (.ok trees) n := by
  induction h generalizing p q with
  | nil =>
      have hlength := congrArg List.length htokens
      rw [List.length_map, length_slice] at hlength
      have hq : q = p := by
        simp only [tokensOfAll, leavesOfAll, List.map_nil, List.length_nil] at hlength
        omega
      exact ⟨0, hq ▸ .nil⟩
  | @leaf i token s trees hb hs ih =>
      rw [tokensOfAll_leaf] at htokens
      obtain ⟨hle, hfirst, hrest⟩ := slice_split (a := [some token]) htokens hpq
      rw [List.length_singleton] at hle hfirst hrest
      rw [slice_eq_cons tokens (Nat.lt_succ_self p), slice_self] at hfirst
      obtain rfl : token = tokens p := by simpa using hfirst
      obtain ⟨n, hn⟩ := ih hrest hle (guided_leaf.mp hguided)
      exact ⟨_, .shift hb hn⟩
  | @branch r children s trees hr hc hs ihc ihs =>
      rw [tokensOfAll_branch] at htokens
      obtain ⟨hle, hfirst, hrest⟩ := slice_split htokens hpq
      obtain ⟨⟨la, hla, hlookup⟩, hgc, hgs⟩ := guided_branch.mp hguided
      obtain ⟨n, hn⟩ := ihc hfirst (Nat.le_add_right _ _) hgc
      obtain ⟨n', hn'⟩ := ihs hrest hle hgs
      exact ⟨_, .expand hla hlookup hn hn'⟩

theorem type_of_lookahead (h : lookahead t tokens p = some .endOfInput) :
    (tokens p).type = TokenType.endOfInput := by
  by_contra ht
  obtain ⟨i, hi⟩ := Grammar.terminal?_eq_terminal ht h
  cases hi

theorem delivers_list (w : List Token) :
    (Input.ofSource (TokenList.source w)).Delivers (TokenList.pull w) :=
  ⟨fun _ => rfl, fun _ => rfl⟩

-- An accepted tree comes from a run that leads to the end of input.
theorem exists_run_of_accepted (ht : t.IsSound) (hl : t.isLeftRecursive = false)
    (hin : input.Delivers tokens) {e : Nat}
    (hend : ∀ i ≥ e, (tokens i).type = TokenType.endOfInput) {tree : Tree} {pulls : Nat}
    (hparse : parse (some t) (some input) e = some ⟨.accepted tree, pulls⟩) :
    ∃ q n, Runs t tokens [.nonterminal t.grammar.start] 0 q (.ok [tree]) n ∧
      lookahead t tokens q = some .endOfInput ∧ pulls = q + 1 := by
  obtain ⟨q, result, n, h⟩ := exists_start_run ht hl hend
  rw [h.parse_eq ht hl hin hend] at hparse
  obtain ⟨hconclude, hpulls⟩ := Report.mk.inj (Option.some.inj hparse)
  cases result with
  | error e => cases hconclude
  | ok trees =>
      obtain ⟨root, rfl⟩ := List.length_eq_one_iff.mp h.length_eq
      by_cases hla : lookahead t tokens q = some .endOfInput
      · rw [conclude, if_pos hla] at hconclude
        cases hconclude
        exact ⟨q, n, h, hla, hpulls.symm⟩
      · rw [conclude, if_neg hla] at hconclude
        cases hconclude

-- The tree for a list is a derivation tree over what stands before the end of input.
theorem derivationTree_of_accepted (ht : t.IsSound) (hl : t.isLeftRecursive = false)
    {w : List Token} {tree : Tree} {pulls : Nat}
    (hparse : parse (some t) (some (.ofSource (TokenList.source w))) w.length =
      some ⟨.accepted tree, pulls⟩) :
    t.grammar.IsDerivationTree tree ∧ tree.tokens = (TokenList.body w).map some := by
  have hlength : (TokenList.body w).length ≤ w.length := (List.takeWhile_prefix _).length_le
  obtain ⟨q, n, h, hla, -⟩ := exists_run_of_accepted ht hl (delivers_list w)
    (fun i hi => TokenList.type_pull_of_le (hlength.trans hi)) hparse
  have hle : q ≤ (TokenList.body w).length := by
    simpa using h.le_end fun i hi => TokenList.type_pull_of_le hi
  have hq : q = (TokenList.body w).length := by
    by_contra hne
    have htype := type_of_lookahead hla
    rw [TokenList.pull, List.getElem?_eq_getElem (by omega)] at htype
    exact TokenList.type_ne_of_mem_body (List.getElem_mem _) htype
  subst hq
  obtain ⟨hforest, htokens⟩ := h.forest ht
  rw [tokensOfAll_singleton, TokenList.slice_pull_body (Nat.le_refl _),
    ← TokenList.take_body (Nat.le_refl _), List.take_length] at htokens
  exact ⟨hforest, htokens⟩

-- An input of tokens that are not for the end of input.
section List

variable {w : List Token} (hw : ∀ token ∈ w, token.type ≠ TokenType.endOfInput)

include hw

theorem type_pull_of_length_le : ∀ i ≥ w.length,
    (TokenList.pull w i).type = TokenType.endOfInput := by
  intro i hi
  exact TokenList.type_pull_of_le (by rwa [TokenList.body_eq_self hw])

theorem lookahead_pull (k : Nat) :
    lookahead t (TokenList.pull w) k = t.grammar.lookaheadIn w k := by
  by_cases hk : k < w.length
  · simp [lookahead, Grammar.lookaheadIn, TokenList.pull, TokenList.body_eq_self hw, hk]
  · rw [lookahead, type_pull_of_length_le hw k (by omega), Grammar.terminal?, if_pos rfl]
    simp [Grammar.lookaheadIn, Nat.le_of_not_lt hk]

theorem lookahead_length : lookahead t (TokenList.pull w) w.length = some .endOfInput := by
  simp [lookahead_pull hw, Grammar.lookaheadIn]

theorem dictates_iff {tree : Tree} :
    t.Dictates w tree ↔ Guided t (TokenList.pull w) 0 [tree] := by
  simp only [Table.Dictates, Guided, lookahead_pull hw, Nat.zero_add]

theorem tokensOfAll_list {tree : Tree} (h : tree.tokens = w.map some) :
    tokensOfAll [tree] = (slice (TokenList.pull w) 0 w.length).map some := by
  rw [tokensOfAll_singleton, TokenList.slice_pull hw, h]

-- A run that ends with a tree has consumed the whole list.
theorem Runs.eq_length {result : Except SyntaxError (List Tree)}
    (h : Runs t (TokenList.pull w) s 0 q result n)
    (hla : lookahead t (TokenList.pull w) q = some .endOfInput) : q = w.length := by
  have hle := h.le_end (type_pull_of_length_le hw)
  rcases Nat.lt_or_ge q w.length with hlt | hge
  · have htype := type_of_lookahead hla
    rw [TokenList.pull, TokenList.body_eq_self hw, List.getElem?_eq_getElem hlt] at htype
    exact absurd htype (hw _ (List.getElem_mem hlt))
  · omega

theorem accepts_iff (ht : t.IsSound) (hl : t.isLeftRecursive = false) {tree : Tree} :
    (∃ pulls, parse (some t) (some (.ofSource (TokenList.source w))) w.length =
        some ⟨.accepted tree, pulls⟩) ↔
      t.grammar.IsDerivationTree tree ∧ tree.tokens = w.map some ∧ t.Dictates w tree := by
  have hend := type_pull_of_length_le hw
  have hin := delivers_list w
  rw [dictates_iff hw]
  constructor
  · rintro ⟨pulls, hparse⟩
    obtain ⟨q, n, h, hla, -⟩ := exists_run_of_accepted ht hl hin hend hparse
    obtain rfl := h.eq_length hw hla
    obtain ⟨hforest, htokens⟩ := h.forest ht
    rw [tokensOfAll_singleton, TokenList.slice_pull hw] at htokens
    exact ⟨hforest, htokens, h.guided ht⟩
  · rintro ⟨hforest, htokens, hguided⟩
    obtain ⟨n, h⟩ := exists_run_of_guided hforest (tokensOfAll_list hw htokens) (Nat.zero_le _)
      hguided
    refine ⟨w.length + 1, ?_⟩
    rw [h.parse_eq ht hl hin hend, conclude, if_pos (lookahead_length hw)]
    rfl

-- All tokens of an accepted list have been pulled, and the end of input.
theorem pulls_of_accepts (ht : t.IsSound) (hl : t.isLeftRecursive = false) {tree : Tree}
    {pulls : Nat} (hparse : parse (some t) (some (.ofSource (TokenList.source w))) w.length =
      some ⟨.accepted tree, pulls⟩) : pulls = w.length + 1 := by
  obtain ⟨q, n, h, hla, rfl⟩ := exists_run_of_accepted ht hl (delivers_list w)
    (type_pull_of_length_le hw) hparse
  rw [h.eq_length hw hla]

end List

-- The trees the parser finds for a table, with or without conflicts.
theorem parse_eq_accepted_iff {g : Grammar} (hg : g.IsFirstBuild)
    (hsmall : g.rules.length < 2 ^ 31) {options : List Policy} {t : Table}
    (hb : Table.build g.analyse options = .ok t) (hl : t.isLeftRecursive = false) {w : List Token}
    (hw : ∀ token ∈ w, token.type ≠ TokenType.endOfInput) (tree : Tree) :
    (∃ pulls, parse (some t) (some (.ofSource (TokenList.source w))) w.length =
        some ⟨.accepted tree, pulls⟩) ↔
      g.IsDerivationTree tree ∧ tree.tokens = w.map some ∧ t.Dictates w tree := by
  obtain ⟨rfl, ht⟩ := Table.isSound_of_build hb hg.wellFormed hsmall
  exact accepts_iff hw ht hl

-- Two numbers with a sign between them.
def sumTokens : List Token := TokenList.ofTypes [TokenType.integer, 0x2B, TokenType.integer]

theorem exists_sumTree :
    ∃ t tree pulls, Table.build Expression.grammar.analyse [] = .ok t ∧
      t.isLeftRecursive = false ∧ t.error? = none ∧
      parse (some t) (some (.ofSource (TokenList.source sumTokens))) sumTokens.length =
        some ⟨.accepted tree, pulls⟩ := by
  obtain ⟨t, hb, h⟩ := exists_ok_of_any (x := Table.build Expression.grammar.analyse [])
    (p := fun t => (t.isLeftRecursive = false ∧ t.error? = none) ∧
      (parse (some t) (some (.ofSource (TokenList.source sumTokens))) sumTokens.length).any
        fun report => report.outcome matches .accepted _) (by decide +kernel)
  obtain ⟨⟨hl, he⟩, h⟩ := of_decide_eq_true h
  obtain ⟨⟨outcome, pulls⟩, hp, houtcome⟩ := (Option.any_eq_true _ _).mp h
  cases outcome with
  | accepted tree => exact ⟨t, tree, pulls, hb, hl, he, hp⟩
  | _ => cases houtcome

theorem parse_eq_accepted_sum :
    ∃ t tree, Table.build Expression.grammar.analyse [] = .ok t ∧
      Expression.grammar.IsDerivationTree tree ∧ tree.tokens = sumTokens.map some ∧
      t.Dictates sumTokens tree := by
  obtain ⟨t, tree, pulls, hb, hl, -, hparse⟩ := exists_sumTree
  exact ⟨t, tree, hb, (parse_eq_accepted_iff Expression.isFirstBuild (by decide) hb hl (by decide)
    tree).mp ⟨pulls, hparse⟩⟩

end Parser

end Lookahead
