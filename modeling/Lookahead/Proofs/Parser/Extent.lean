import Lookahead.Proofs.Parser.Discipline
import Lookahead.Proofs.Tree.Span

/-!
The input that is covered by the trees of a parse. Whatever table it uses, the leaves of a tree that
is found carry tokens of the input, in the order in which they have been pulled. If these lie one
behind the other, so do the children of every node.
-/

namespace Lookahead

open Lookahead.Tree Lookahead.Span

-- The token that a pull yields, unless it is one for the end of input.
def Pull.token? : Pull → Option Token
  | token t => if t.type = TokenType.endOfInput then none else some t
  | _ => none

-- The tokens of the input that come with the first pulls.
def Input.tokens (input : Input) (pulls : Nat) : List Token :=
  (List.range pulls).filterMap fun i => (input.source i).token?

theorem Input.tokens_succ (input : Input) (n : Nat) :
    input.tokens (n + 1) = input.tokens n ++ (input.source n).token?.toList := by
  rw [tokens, List.range_succ, List.filterMap_append]
  cases h : (input.source n).token? <;> simp [tokens, h]

namespace Parser

variable {t : Table} {input : Input} {fuel n pulls : Nat} {s : State} {goals : List Goal}
  {built : List Tree} {tree : Tree}

-- The last pull has yielded the token ahead, and the trees built so far have tokens of the pulls
-- before it.
def IsFed (input : Input) (s : State) : Prop :=
  ∃ n, s.pulls = n + 1 ∧ input.source n = .token s.token ∧
    (tokensOfAll s.built.reverse).Sublist ((input.tokens n).map some)

-- A parse that ends with a tree does not end with a pull.
theorem exists_isFed_of_pull
    (h : (tokensOfAll built.reverse).Sublist ((input.tokens n).map some))
    (hrun : run (step t input) fuel (pull input n goals built) = some ⟨.accepted tree, pulls⟩) :
    ∃ s, IsFed input s ∧ run (step t input) fuel (.next s) = some ⟨.accepted tree, pulls⟩ := by
  unfold pull Input.pull at hrun
  cases hcancelled : input.isCancelled n with
  | true => simp [hcancelled, run_done] at hrun
  | false =>
      cases htoken : input.source n with
      | token token =>
          simp only [hcancelled, htoken] at hrun
          exact ⟨_, ⟨n, rfl, htoken, h⟩, hrun⟩
      | nothing =>
          cases hhalt : input.haltWhenStuck <;>
            simp [hcancelled, htoken, hhalt, run_done] at hrun
      | crash => simp [hcancelled, htoken, run_done] at hrun

-- A matched token has been pulled last.
theorem sublist_shift {i : Nat} {token : Token} (htoken : input.source n = .token token)
    (htype : token.type ≠ TokenType.endOfInput)
    (h : (tokensOfAll built.reverse).Sublist ((input.tokens n).map some)) :
    (tokensOfAll (leaf (some (.terminal i)) (some token) :: built).reverse).Sublist
      ((input.tokens (n + 1)).map some) := by
  have hlast : (input.source n).token? = some token := by rw [htoken, Pull.token?, if_neg htype]
  rw [tokensOfAll, leavesOfAll_shift, List.map_append, input.tokens_succ, hlast, List.map_append]
  exact h.append (.refl _)

theorem tokens_headD_sublist (built : List Tree) :
    (built.headD .missing).tokens.Sublist (tokensOfAll built.reverse) := by
  cases built with
  | nil => exact .refl _
  | cons tree rest =>
      rw [List.reverse_cons, tokensOfAll_append, tokensOfAll_singleton]
      exact List.sublist_append_right _ _

theorem tokens_of_run (hs : IsFed input s)
    (h : run (step t input) fuel (.next s) = some ⟨.accepted tree, pulls⟩) :
    tree.tokens.Sublist ((input.tokens pulls).map some) := by
  induction fuel generalizing s with
  | zero => cases h
  | succ fuel ih =>
      obtain ⟨n, hpulls, htoken, htokens⟩ := hs
      obtain ⟨act, hact, hstep⟩ := exists_acts t s
      rw [run, hstep] at h
      cases hact with
      | @shift i _ _ hla _ =>
          have hshift := sublist_shift (i := i) htoken (Grammar.type_ne_endOfInput hla) htokens
          rw [hpulls] at h
          obtain ⟨s', hs', hrun⟩ := exists_isFed_of_pull hshift h
          exact ih hs' hrun
      | @expand _ r goals _ _ _ =>
          exact ih (s := { s with goals := r.rhs.map .symbol ++ .close r :: goals })
            ⟨n, hpulls, htoken, htokens⟩ h
      | @close r goals _ _ =>
          refine ih (s := { s with goals := goals, built := reduce r s.built })
            ⟨n, hpulls, htoken, ?_⟩ h
          rw [tokensOfAll, leavesOfAll_reduce]
          exact htokens
      | accept _ _ _ =>
          rw [run_done] at h
          cases h
          rw [hpulls, input.tokens_succ, List.map_append]
          exact (tokens_headD_sublist s.built).trans
            (htokens.trans (List.sublist_append_left _ _))
      | reject _ _ => simp [run_done] at h
      | breakDown _ => simp [run_done] at h

-- The leaves of a tree carry tokens of the input, in their order.
theorem tokens_of_accepted
    (h : parseWithin fuel (some t) (some input) = some ⟨.accepted tree, pulls⟩) :
    tree.tokens.Sublist ((input.tokens pulls).map some) := by
  rw [parseWithin, guarded] at h
  split at h
  · simp at h
  · have hbuilt : (tokensOfAll [].reverse).Sublist ((input.tokens 0).map some) :=
      List.nil_sublist _
    obtain ⟨s, hs, hrun⟩ := exists_isFed_of_pull hbuilt h
    exact tokens_of_run hs hrun

theorem leafSpans_of_accepted
    (h : parseWithin fuel (some t) (some input) = some ⟨.accepted tree, pulls⟩) :
    tree.leafSpans.Sublist ((input.tokens pulls).map (·.span)) := by
  have hspans := (tokens_of_accepted h).map fun o => (o.map (·.span)).getD Span.null
  rw [Tree.tokens, List.map_map, List.map_map] at hspans
  exact hspans

-- The span of any tree extends from the least start to the greatest end of the spans of its leaves
-- that are not null, whatever the branches between are, and is null if there are none. In a tree
-- that has been parsed from tokens one behind the other, every node extends from its first leaf to
-- its last one, and so the children of a node that cover anything lie one behind the other.
theorem extents_exact :
    (∀ tree : Tree,
      ((∀ s ∈ tree.leafSpans, s = Span.null) → tree.span = Span.null) ∧
      ((∃ s ∈ tree.leafSpans, s ≠ Span.null) →
        IsExtent tree.span (present tree.leafSpans)) ∧
      ∀ other : Tree, present other.leafSpans = present tree.leafSpans →
        other.span = tree.span) ∧
    ∀ {fuel : Nat} {t : Table} {input : Input} {tree : Tree} {pulls : Nat},
      parseWithin fuel (some t) (some input) = some ⟨.accepted tree, pulls⟩ →
      Ascending ((input.tokens pulls).map (·.span)) →
      ∀ r children, branch r children ∈ tree.preorder →
        (∀ first last, (branch r children).leafSpans.head? = some first →
          (branch r children).leafSpans.getLast? = some last →
          (branch r children).span = ⟨first.start, last.stop⟩) ∧
        Ascending (present (children.map Tree.span)) := by
  refine ⟨fun tree => ⟨?_, ?_, ?_⟩, ?_⟩
  · intro hnull
    rw [span_eq_hull, hull_eq_null_iff]
    exact hnull
  · rintro ⟨s, hs, hne⟩
    rw [span_eq_hull]
    exact isExtent_hull fun hnull => hne (hull_eq_null_iff.mp hnull s hs)
  · intro other hother
    rw [span_eq_hull, span_eq_hull, ← hull_present, hother, hull_present]
  · intro fuel t input tree pulls hparse htokens r children hnode
    have hspans : Ascending (branch r children).leafSpans :=
      htokens.sublist ((leafSpans_sublist hnode).trans (leafSpans_of_accepted hparse))
    exact ⟨fun first last => span_of_ascending hspans, ascending_children hspans⟩

theorem exists_branch {g : Grammar} {i : Nat} (h : g.Forest [.nonterminal i] [tree]) :
    ∃ r children, tree = branch (some r) children := by
  cases h with
  | branch _ _ _ => exact ⟨_, _, rfl⟩

-- A sum extends from its first number to its last one.
theorem extents_sum :
    ∃ t tree pulls, Table.build Expression.grammar.analyse [] = .ok t ∧
      parse (some t) (some (.ofSource (TokenList.source sumTokens))) sumTokens.length =
        some ⟨.accepted tree, pulls⟩ ∧ tree.span = ⟨0, 3⟩ := by
  obtain ⟨t, tree, pulls, hb, hl, -, hparse⟩ := exists_sumTree
  obtain ⟨hforest, htokens, -⟩ :=
    (parse_eq_accepted_iff Expression.isFirstBuild (by decide) hb hl (by decide) tree).mp
      ⟨pulls, hparse⟩
  have hspans : tree.leafSpans = [⟨0, 1⟩, ⟨1, 2⟩, ⟨2, 3⟩] := by
    have h := congrArg (List.map fun o : Option Token => (o.map (·.span)).getD Span.null) htokens
    rw [Tree.tokens, List.map_map] at h
    exact h
  obtain ⟨r, children, rfl⟩ := exists_branch hforest
  obtain rfl : pulls = 4 := pulls_of_accepts (by decide)
    (Table.isSound_of_build hb Expression.isFirstBuild.wellFormed (by decide)).2 hl hparse
  have h := (extents_exact.2 hparse (by decide) (some r) children (by simp [preorder])).1
  exact ⟨t, _, _, hb, hparse, h _ _ (by rw [hspans]; rfl) (by rw [hspans]; rfl)⟩

end Parser

end Lookahead
