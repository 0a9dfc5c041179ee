import Lookahead.Proofs.Parser.Engine

/-!
Correctness of the parser for accepted tables: it finds the derivation tree of every sentence, which
is the only one, and reports a syntax error for everything else.
-/

namespace Lookahead

open Lookahead.Tree

namespace Table

variable {g : Grammar} {t : Table} {options : List Policy} {r : Rule}

theorem conflicts_of_error?_eq_none (he : t.error? = none) (hp : t.policy = .strict) :
    t.isLeftRecursive = false ∧ t.conflicts = [] := by
  unfold error? at he
  cases hl : t.isLeftRecursive with
  | true => simp [hl] at he
  | false => simpa [hl, hp, hasConflicts] using he

-- Without conflicts, a rule is found under each of its triggers.
theorem lookup_of_mem_triggers (hb : build g.analyse options = .ok t) (hg : g.WellFormed)
    (hsmall : g.rules.length < 2 ^ 31) (hc : t.conflicts = []) (hr : r ∈ g.rules) {la : Symbol}
    (hla : la.isNonterminal = false) (hm : g.column la ∈ triggers g.analyse r) :
    t.lookup (.nonterminal r.lhs) la = .ok (some r) := by
  have hunique := (conflicts_eq_nil_iff hb hg hsmall).mp hc
  have hmem : r ∈ eligible g.analyse r.lhs (g.column la) := mem_eligible.mpr ⟨hr, rfl, hm⟩
  rw [lookup_eq hb hg hsmall r.lhs hla]
  cases hel : eligible g.analyse r.lhs (g.column la) with
  | nil => simp [hel] at hmem
  | cons r' rest =>
      obtain ⟨hr', hlhs, hm'⟩ := mem_eligible.mp (hel ▸ List.mem_cons_self)
      rw [hunique r' hr' r hr hlhs _ hm' hm]
      rfl

end Table

namespace Grammar

variable {g : Grammar} {r : Rule} {s : List Symbol} {x : Symbol} {c : Nat}

-- If column `c` follows a string, then every non-terminal of the string is followed by what stands
-- behind it.
def FollowedIn (g : Grammar) (s : List Symbol) (c : Nat) : Prop :=
  ∀ u i v, s = u ++ .nonterminal i :: v →
    (∀ c', g.BeginsWith v c' → g.FollowedBy i c') ∧ (g.Derives v [] → g.FollowedBy i c)

theorem followedIn_start (g : Grammar) :
    g.FollowedIn [.nonterminal g.start] (g.column .endOfInput) := by
  intro u i v he
  obtain ⟨rfl, he⟩ | ⟨-, he⟩ := List.append_eq_singleton_iff.mp he.symm
  · obtain ⟨hi, rfl⟩ := List.cons.inj he
    cases hi
    constructor
    · rintro c' ⟨x, rest, hx, -, hd⟩
      exact absurd (hd.eq_of_terminals (by simp)) (by simp)
    · exact fun _ => .inr ⟨rfl, [], .refl _⟩
  · cases he

theorem FollowedIn.tail (h : g.FollowedIn (x :: s) c) : g.FollowedIn s c :=
  fun u i v he => h (x :: u) i v (by rw [he]; rfl)

theorem followedIn_rhs (hr : r ∈ g.rules) (h : g.FollowedBy r.lhs c) : g.FollowedIn r.rhs c :=
  fun _ _ _ he => ⟨fun _ hv => followedBy_of_beginsWith hr he hv, fun hv => h.of_lhs hr he hv⟩

end Grammar

namespace Parser

variable {g : Grammar} {t : Table} {tokens : Nat → Token} {options : List Policy}
  {s : List Symbol} {p q : Nat} {trees : List Tree} {la : Symbol}

-- Trees begin with the symbol of the token at their position, unless they have no leaves.
theorem lookahead_of_forest (h : t.grammar.Forest s trees)
    (htokens : tokensOfAll trees = (slice tokens p q).map some) (hpq : p ≤ q)
    (hla : lookahead t tokens q = some la) :
    ∃ x, lookahead t tokens p = some x ∧ (t.grammar.BeginsWith s (t.grammar.column x) ∨
      (t.grammar.Derives s [] ∧ x = la)) := by
  rcases Nat.eq_or_lt_of_le hpq with rfl | hlt
  · have hd := h.derives_nil (by rw [htokens, slice_self, List.map_nil])
    exact ⟨la, hla, .inr ⟨hd, rfl⟩⟩
  · have hd := h.derives
    rw [slice_eq_cons tokens hlt, List.map_cons] at htokens
    obtain ⟨leaf, rest, hleaves, htoken, -⟩ := List.map_eq_cons_iff.mp htokens
    obtain ⟨token, htoken', hb⟩ := h.leaves_bound leaf (by rw [hleaves]; exact List.mem_cons_self)
    rw [htoken] at htoken'
    cases htoken'
    rw [hleaves] at hd
    exact ⟨leaf.1, hb, .inl ⟨leaf.1, _, Grammar.isNonterminal_terminal? hb, rfl, hd⟩⟩

-- Without conflicts, every derivation tree has the rules that the table dictates.
theorem guided_of_followedIn (hb : Table.build t.grammar.analyse options = .ok t)
    (ht : t.IsSound) (hsmall : t.grammar.rules.length < 2 ^ 31) (hc : t.conflicts = [])
    (h : t.grammar.Forest s trees) (htokens : tokensOfAll trees = (slice tokens p q).map some)
    (hpq : p ≤ q) (hla : lookahead t tokens q = some la)
    (hs : t.grammar.FollowedIn s (t.grammar.column la)) : Guided t tokens p trees := by
  induction h generalizing p q la with
  | nil => exact guided_nil
  | @leaf i token s trees hb hs' ih =>
      rw [tokensOfAll_leaf] at htokens
      obtain ⟨hle, -, hrest⟩ := slice_split (a := [some token]) htokens hpq
      exact guided_leaf.mpr (ih hrest hle hla hs.tail)
  | @branch r children s trees hr hchildren hforest ihc ihs =>
      rw [tokensOfAll_branch] at htokens
      obtain ⟨hle, hfirst, hrest⟩ := slice_split htokens hpq
      have hpm := Nat.le_add_right p (tokensOfAll children).length
      -- what comes behind the branch follows its non-terminal
      obtain ⟨x, hx, hbehind⟩ := lookahead_of_forest hforest hrest hle hla
      obtain ⟨hbegins, hvanishes⟩ := hs [] r.lhs s rfl
      have hfollow : t.grammar.FollowedBy r.lhs (t.grammar.column x) := by
        rcases hbehind with hb | ⟨hd, rfl⟩
        · exact hbegins _ hb
        · exact hvanishes hd
      -- so that the token at which it begins is among the triggers of its rule
      obtain ⟨y, hy, hahead⟩ := lookahead_of_forest hchildren hfirst hpm hx
      have htrigger : t.grammar.column y ∈ Table.triggers t.grammar.analyse r := by
        rw [ht.wellFormed.mem_triggers_iff]
        rcases hahead with hb | ⟨hd, rfl⟩
        · exact .inl hb
        · exact .inr ⟨hd, hfollow⟩
      have hlookup := Table.lookup_of_mem_triggers hb ht.wellFormed hsmall hc hr
        (Grammar.isNonterminal_terminal? hy) htrigger
      exact guided_branch.mpr ⟨⟨y, hy, hlookup⟩,
        ihc hfirst hpm hx (Grammar.followedIn_rhs hr hfollow), ihs hrest hle hla hs.tail⟩

-- An input of tokens that are not for the end of input, and a table without conflicts.
section Accepted

variable {w : List Token} (hw : ∀ token ∈ w, token.type ≠ TokenType.endOfInput)
  (hb : Table.build t.grammar.analyse options = .ok t) (ht : t.IsSound)
  (hsmall : t.grammar.rules.length < 2 ^ 31) (hl : t.isLeftRecursive = false)
  (hc : t.conflicts = [])

include hw hb ht hsmall hl hc

theorem accepts_derivationTree {tree : Tree} (htree : t.grammar.IsDerivationTree tree)
    (htokens : tree.tokens = w.map some) :
    ∃ pulls, parse (some t) (some (.ofSource (TokenList.source w))) w.length =
      some ⟨.accepted tree, pulls⟩ := by
  have hguided := guided_of_followedIn hb ht hsmall hc htree (tokensOfAll_list hw htokens)
    (Nat.zero_le _) (lookahead_length hw) t.grammar.followedIn_start
  exact (accepts_iff hw ht hl).mpr ⟨htree, htokens, (dictates_iff hw).mpr hguided⟩

theorem accepts_iff_recognises :
    (∃ tree pulls, parse (some t) (some (.ofSource (TokenList.source w))) w.length =
      some ⟨.accepted tree, pulls⟩) ↔ t.grammar.Recognises w := by
  rw [Grammar.recognises_iff hw]
  constructor
  · rintro ⟨tree, hparse⟩
    obtain ⟨htree, htokens, -⟩ := (accepts_iff hw ht hl).mp hparse
    exact ⟨tree, htree, htokens⟩
  · rintro ⟨tree, htree, htokens⟩
    exact ⟨tree, accepts_derivationTree hw hb ht hsmall hl hc htree htokens⟩

-- The parser finds one tree only, so that there are no others.
theorem derivationTree_unique {tree other : Tree} {pulls : Nat}
    (hparse : parse (some t) (some (.ofSource (TokenList.source w))) w.length =
      some ⟨.accepted tree, pulls⟩)
    (hother : t.grammar.IsDerivationTree other) (htokens : other.tokens = w.map some) :
    other = tree := by
  obtain ⟨pulls', hparse'⟩ := accepts_derivationTree hw hb ht hsmall hl hc hother htokens
  rw [hparse] at hparse'
  cases hparse'
  rfl

end Accepted

-- With an accepted table, a list of tokens is a sentence if and only if there is a tree for it,
-- which is its only derivation tree. For any other list there is a syntax error.
theorem parse_correct (hg : g.IsFirstBuild) (hsmall : g.rules.length < 2 ^ 31)
    (hb : Table.build g.analyse options = .ok t) (hstrict : Policy.ofOptions options = .strict)
    (herror : t.error? = none) {w : List Token}
    (hw : ∀ token ∈ w, token.type ≠ TokenType.endOfInput) :
    ((∃ tree pulls, parse (some t) (some (.ofSource (TokenList.source w))) w.length =
        some ⟨.accepted tree, pulls⟩) ↔ g.Recognises w) ∧
      (∀ tree pulls, parse (some t) (some (.ofSource (TokenList.source w))) w.length =
          some ⟨.accepted tree, pulls⟩ →
        g.IsDerivationTree tree ∧ tree.tokens = w.map some ∧
          ∀ other, g.IsDerivationTree other → other.tokens = w.map some → other = tree) ∧
      (¬g.Recognises w → ∃ error pulls,
        parse (some t) (some (.ofSource (TokenList.source w))) w.length =
          some ⟨.failed (.rejected error), pulls⟩) := by
  have hpolicy := (Table.holds_of_build hb hg.wellFormed hsmall).2.1.trans hstrict
  obtain ⟨hl, hc⟩ := Table.conflicts_of_error?_eq_none herror hpolicy
  obtain ⟨rfl, ht⟩ := Table.isSound_of_build hb hg.wellFormed hsmall
  have hsentence := accepts_iff_recognises hw hb ht hsmall hl hc
  refine ⟨hsentence, ?_, ?_⟩
  · intro tree pulls hparse
    obtain ⟨htree, htokens, -⟩ := (accepts_iff hw ht hl).mp ⟨pulls, hparse⟩
    exact ⟨htree, htokens, fun _ => derivationTree_unique hw hb ht hsmall hl hc hparse⟩
  · intro hnot
    obtain ⟨outcome, pulls, hparse, ⟨tree, rfl, -⟩ | ⟨error, rfl⟩⟩ :=
      parse_cases ht hl (delivers_list w) (type_pull_of_length_le hw)
    · exact absurd (hsentence.mp ⟨tree, pulls, hparse⟩) hnot
    · exact ⟨error, pulls, hparse⟩

theorem parse_correct_sum :
    Expression.grammar.Recognises sumTokens ∧
      ∃ tree, Expression.grammar.IsDerivationTree tree ∧ tree.tokens = sumTokens.map some ∧
        ∀ other, Expression.grammar.IsDerivationTree other →
          other.tokens = sumTokens.map some → other = tree := by
  obtain ⟨t, tree, pulls, hb, -, he, hparse⟩ := exists_sumTree
  obtain ⟨hsentence, hunique, -⟩ :=
    parse_correct Expression.isFirstBuild (by decide) hb rfl he (w := sumTokens) (by decide)
  exact ⟨hsentence.mp ⟨tree, pulls, hparse⟩, tree, hunique tree pulls hparse⟩

end Parser

end Lookahead
