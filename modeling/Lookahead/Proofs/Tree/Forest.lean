import Lookahead.Proofs.Derivation
import Lookahead.Tree.Basic

/-!
Derivation trees. A string of tokens is derived from a string of symbols if and only if there are
trees for the symbols with the tokens as leaves.
-/

namespace Lookahead

namespace Grammar

-- One tree for each symbol of a string. Leaves carry tokens that are bound to their terminals.
inductive Forest (g : Grammar) : List Symbol → List Tree → Prop
  | nil : Forest g [] []
  | leaf {i : Nat} {token : Token} {s : List Symbol} {trees : List Tree}
      (hb : g.terminal? token.type = some (.terminal i)) (hs : Forest g s trees) :
      Forest g (.terminal i :: s) (.leaf (some (.terminal i)) (some token) :: trees)
  | branch {r : Rule} {children : List Tree} {s : List Symbol} {trees : List Tree}
      (hr : r ∈ g.rules) (hc : Forest g r.rhs children) (hs : Forest g s trees) :
      Forest g (.nonterminal r.lhs :: s) (.branch (some r) children :: trees)

def IsDerivationTree (g : Grammar) (tree : Tree) : Prop := g.Forest [.nonterminal g.start] [tree]

-- The symbols of a string are bound to the types of some tokens, one by one.
def Binds (g : Grammar) (s : List Symbol) (tokens : List Token) : Prop :=
  tokens.map (fun t => g.terminal? t.type) = s.map some

-- The start symbol derives the terminals bound to the types of some tokens.
def Recognises (g : Grammar) (tokens : List Token) : Prop :=
  ∃ s, g.Binds s tokens ∧ g.Derives [.nonterminal g.start] s

end Grammar

namespace Tree

-- Induction over trees, with all children of a branch at once.
@[elab_as_elim]
theorem induction_on_children {motive : Tree → Prop} (missing : motive .missing)
    (leaf : ∀ s token, motive (.leaf s token))
    (branch : ∀ r children, (∀ t ∈ children, motive t) → motive (.branch r children)) (t : Tree) :
    motive t := by
  refine Tree.rec (motive_1 := motive) (motive_2 := fun trees => ∀ t ∈ trees, motive t)
    missing leaf branch ?_ ?_ t
  · simp
  · exact fun _ _ h hs => List.forall_mem_cons.mpr ⟨h, hs⟩

-- A node with a number of leaves to its left.
inductive Occurs (node : Tree) : Nat → List Tree → Prop
  | here {trees : List Tree} : Occurs node 0 (node :: trees)
  | inside {r : Option Rule} {children trees : List Tree} {k : Nat} (h : Occurs node k children) :
      Occurs node k (.branch r children :: trees)
  | later (tree : Tree) {trees : List Tree} {k : Nat} (h : Occurs node k trees) :
      Occurs node (tree.leaves.length + k) (tree :: trees)

def tokensOfAll (trees : List Tree) : List (Option Token) := (leavesOfAll trees).map (·.2)

theorem leavesOfAll_eq_flatMap (trees : List Tree) : leavesOfAll trees = trees.flatMap leaves := by
  induction trees with
  | nil => rfl
  | cons tree trees ih => rw [leavesOfAll, ih, List.flatMap_cons]

theorem leavesOfAll_append (trees more : List Tree) :
    leavesOfAll (trees ++ more) = leavesOfAll trees ++ leavesOfAll more := by
  rw [leavesOfAll_eq_flatMap, leavesOfAll_eq_flatMap, leavesOfAll_eq_flatMap, List.flatMap_append]

theorem tokensOfAll_append (trees more : List Tree) :
    tokensOfAll (trees ++ more) = tokensOfAll trees ++ tokensOfAll more := by
  rw [tokensOfAll, leavesOfAll_append, List.map_append]
  rfl

theorem tokensOfAll_singleton (tree : Tree) : tokensOfAll [tree] = tree.tokens := by
  rw [tokensOfAll, leavesOfAll, leavesOfAll, List.append_nil]
  rfl

theorem tokensOfAll_leaf (i : Nat) (token : Token) (trees : List Tree) :
    tokensOfAll (.leaf (some (.terminal i)) (some token) :: trees) =
      some token :: tokensOfAll trees := rfl

theorem tokensOfAll_branch (r : Option Rule) (children trees : List Tree) :
    tokensOfAll (.branch r children :: trees) = tokensOfAll children ++ tokensOfAll trees := by
  rw [tokensOfAll, leavesOfAll, leaves, List.map_append]
  rfl

theorem length_leaves_branch (r : Option Rule) (children : List Tree) :
    (branch r children).leaves.length = (tokensOfAll children).length := by
  rw [leaves, tokensOfAll, List.length_map]

end Tree

namespace Grammar

open Lookahead.Tree

variable {g : Grammar} {s s' u v : List Symbol} {trees trees' : List Tree}

theorem terminal?_eq_terminal {type : TokenType} {x : Symbol} (ht : type ≠ TokenType.endOfInput)
    (h : g.terminal? type = some x) : ∃ i, x = .terminal i := by
  rw [terminal?, if_neg ht] at h
  obtain ⟨i, -, rfl⟩ := Option.map_eq_some_iff.mp h
  exact ⟨i, rfl⟩

theorem isNonterminal_terminal? {type : TokenType} {x : Symbol} (h : g.terminal? type = some x) :
    x.isNonterminal = false := by
  by_cases ht : type = TokenType.endOfInput
  · rw [terminal?, if_pos ht] at h
    rw [← Option.some.inj h]
    rfl
  · obtain ⟨i, rfl⟩ := terminal?_eq_terminal ht h
    rfl

theorem type_ne_endOfInput {type : TokenType} {i : Nat}
    (h : g.terminal? type = some (.terminal i)) : type ≠ TokenType.endOfInput := by
  intro ht
  rw [terminal?, if_pos ht] at h
  cases h

theorem typeOf_of_terminal? {type : TokenType} {i : Nat}
    (h : g.terminal? type = some (.terminal i)) : g.typeOf (.terminal i) = type := by
  rw [terminal?, if_neg (type_ne_endOfInput h)] at h
  obtain ⟨j, hj, heq⟩ := Option.map_eq_some_iff.mp h
  cases heq
  obtain ⟨hlt, htype, -⟩ := List.findIdx?_eq_some_iff_getElem.mp hj
  simpa [typeOf, hlt] using htype

namespace Forest

theorem append (h : g.Forest s trees) (h' : g.Forest s' trees') :
    g.Forest (s ++ s') (trees ++ trees') := by
  induction h with
  | nil => exact h'
  | leaf hb _ ih => exact .leaf hb ih
  | branch hr hc _ _ ih => exact .branch hr hc ih

theorem length_eq (h : g.Forest s trees) : trees.length = s.length := by
  induction h with
  | nil => rfl
  | leaf _ _ ih => exact congrArg (· + 1) ih
  | branch _ _ _ _ ih => exact congrArg (· + 1) ih

theorem isMissing_eq_false (h : g.Forest s trees) : ∀ tree ∈ trees, tree.isMissing = false := by
  induction h with
  | nil => simp
  | leaf _ _ ih => exact List.forall_mem_cons.mpr ⟨rfl, ih⟩
  | branch _ _ _ _ ih => exact List.forall_mem_cons.mpr ⟨rfl, ih⟩

theorem append_cases (h : g.Forest (s ++ s') trees) :
    ∃ front back, trees = front ++ back ∧ g.Forest s front ∧ g.Forest s' back := by
  induction s generalizing trees with
  | nil => exact ⟨[], trees, rfl, .nil, h⟩
  | cons x s ih =>
      rw [List.cons_append] at h
      cases h with
      | leaf hb hs =>
          obtain ⟨front, back, rfl, h₁, h₂⟩ := ih hs
          exact ⟨_ :: front, back, rfl, .leaf hb h₁, h₂⟩
      | branch hr hc hs =>
          obtain ⟨front, back, rfl, h₁, h₂⟩ := ih hs
          exact ⟨_ :: front, back, rfl, .branch hr hc h₁, h₂⟩

-- The symbols of the leaves are derived from the symbols of the trees.
theorem derives (h : g.Forest s trees) : g.Derives s ((leavesOfAll trees).map (·.1)) := by
  induction h with
  | nil => exact .refl []
  | leaf _ _ ih => exact (Derives.refl [_]).append ih
  | branch hr _ _ ihc ihs =>
      rw [leavesOfAll, leaves, List.map_append]
      exact ((derives_rule hr).trans ihc).append ihs

-- Symbols of trees without leaves vanish.
theorem derives_nil (h : g.Forest s trees) (ht : tokensOfAll trees = []) : g.Derives s [] := by
  have hleaves : leavesOfAll trees = [] := List.map_eq_nil_iff.mp ht
  simpa [hleaves] using h.derives

-- Every leaf carries a token that is bound to its symbol.
theorem leaves_bound (h : g.Forest s trees) :
    ∀ leaf ∈ leavesOfAll trees, ∃ token, leaf.2 = some token ∧
      g.terminal? token.type = some leaf.1 := by
  induction h with
  | nil => simp [leavesOfAll]
  | leaf hb _ ih =>
      intro leaf hleaf
      rcases List.mem_cons.mp hleaf with rfl | hleaf
      · exact ⟨_, rfl, hb⟩
      · exact ih leaf hleaf
  | branch _ _ _ ihc ihs =>
      intro leaf hleaf
      rw [leavesOfAll, leaves] at hleaf
      rcases List.mem_append.mp hleaf with hleaf | hleaf
      · exact ihc leaf hleaf
      · exact ihs leaf hleaf

theorem binds (h : g.Forest s trees) {tokens : List Token}
    (ht : tokensOfAll trees = tokens.map some) :
    g.Binds ((leavesOfAll trees).map (·.1)) tokens := by
  have hmap : (tokensOfAll trees).map (fun o => o.bind fun t => g.terminal? t.type) =
      (leavesOfAll trees).map (some ∘ Prod.fst) := by
    rw [tokensOfAll, List.map_map]
    apply List.map_congr_left
    intro leaf hleaf
    obtain ⟨token, hs, hb⟩ := h.leaves_bound leaf hleaf
    simp [hs, hb]
  rw [Binds, List.map_map, ← hmap, ht, List.map_map]
  rfl

end Forest

-- Terminals and their tokens are a forest of leaves.
theorem forest_of_binds {tokens : List Token} (hb : g.Binds s tokens)
    (hne : ∀ token ∈ tokens, token.type ≠ TokenType.endOfInput) :
    ∃ trees, g.Forest s trees ∧ tokensOfAll trees = tokens.map some := by
  induction tokens generalizing s with
  | nil =>
      have hs : s = [] := by simpa [Binds] using hb
      exact ⟨[], hs ▸ .nil, rfl⟩
  | cons token tokens ih =>
      cases s with
      | nil => simp [Binds] at hb
      | cons x s =>
          obtain ⟨hx, hs⟩ := List.cons.inj hb
          obtain ⟨i, rfl⟩ := terminal?_eq_terminal (hne token (by simp)) hx
          obtain ⟨trees, hf, ht⟩ := ih hs (fun t h => hne t (by simp [h]))
          exact ⟨_, .leaf hx hf, by rw [tokensOfAll_leaf, ht, List.map_cons]⟩

-- A step of a derivation puts some of the trees together to one.
theorem exists_forest {tokens : List Token} (hd : g.Derives s s') (hb : g.Binds s' tokens)
    (hne : ∀ token ∈ tokens, token.type ≠ TokenType.endOfInput) :
    ∃ trees, g.Forest s trees ∧ tokensOfAll trees = tokens.map some := by
  induction hd using Relation.ReflTransGen.head_induction_on with
  | refl => exact forest_of_binds hb hne
  | head hs _ ih =>
      obtain ⟨trees, hf, ht⟩ := ih
      cases hs with
      | rule r hr u v =>
          obtain ⟨front, back, rfl, hf, hback⟩ := hf.append_cases
          obtain ⟨front, children, rfl, hfront, hchildren⟩ := hf.append_cases
          refine ⟨front ++ .branch (some r) children :: back,
            hfront.append (.branch hr hchildren hback), ?_⟩
          rw [← ht]
          simp only [tokensOfAll_append, tokensOfAll_branch, List.append_assoc]

theorem recognises_iff {tokens : List Token}
    (hne : ∀ token ∈ tokens, token.type ≠ TokenType.endOfInput) :
    g.Recognises tokens ↔ ∃ tree, g.IsDerivationTree tree ∧ tree.tokens = tokens.map some := by
  constructor
  · rintro ⟨s, hb, hd⟩
    obtain ⟨trees, hf, ht⟩ := exists_forest hd hb hne
    obtain ⟨tree, rfl⟩ := List.length_eq_one_iff.mp hf.length_eq
    exact ⟨tree, hf, by rw [← tokensOfAll_singleton, ht]⟩
  · rintro ⟨tree, hf, ht⟩
    rw [← tokensOfAll_singleton] at ht
    exact ⟨_, hf.binds ht, hf.derives⟩

end Grammar

end Lookahead
