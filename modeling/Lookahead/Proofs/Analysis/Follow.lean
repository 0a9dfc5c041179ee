import Lookahead.Proofs.Analysis.First

/-!
FOLLOW sets are exact: a terminal follows a non-terminal if and only if it stands behind it in a
string that some non-terminal derives, and the end of input does if and only if the non-terminal
stands at the end of a string that the start symbol derives.
-/

namespace Lookahead

namespace Grammar

def FollowedByTerminal (g : Grammar) (i c : Nat) : Prop :=
  ∃ b u x v, x.isNonterminal = false ∧ g.column x = c ∧
    g.Derives [.nonterminal b] (u ++ .nonterminal i :: x :: v)

def FollowedByEnd (g : Grammar) (i c : Nat) : Prop :=
  c = g.column .endOfInput ∧ ∃ u, g.Derives [.nonterminal g.start] (u ++ [.nonterminal i])

-- Whether a non-terminal may be followed by the symbol of column `c`.
def FollowedBy (g : Grammar) (i c : Nat) : Prop :=
  g.FollowedByTerminal i c ∨ g.FollowedByEnd i c

-- Whether a symbol comes behind a non-terminal in some derivation, wherever that starts, and the end
-- of input in one from the start symbol.
def Follows (g : Grammar) (x : Symbol) (i : Nat) : Prop :=
  (x.isTerminal = true ∧ ∃ b < g.nonterminals.length, ∃ u v,
      g.Derives [.nonterminal b] (u ++ .nonterminal i :: x :: v)) ∨
    (x = .endOfInput ∧ ∃ u, g.Derives [.nonterminal g.start] (u ++ [.nonterminal i]))

variable {g : Grammar} {r : Rule} {u v : List Symbol} {i c : Nat}

theorem derives_of_rule_split (hr : r ∈ g.rules) (he : r.rhs = u ++ .nonterminal i :: v)
    {w : List Symbol} (h : g.Derives v w) :
    g.Derives [.nonterminal r.lhs] (u ++ .nonterminal i :: w) := by
  have hd := derives_rule hr
  rw [he] at hd
  have ht := (Derives.refl (g := g) (u ++ [.nonterminal i])).append h
  simp only [List.append_assoc, List.singleton_append] at ht
  exact hd.trans ht

-- What stands behind a non-terminal in a rule follows it.
theorem followedBy_of_beginsWith (hr : r ∈ g.rules) (he : r.rhs = u ++ .nonterminal i :: v)
    (h : g.BeginsWith v c) : g.FollowedBy i c := by
  obtain ⟨x, rest, hx, hc, hd⟩ := h
  exact .inl ⟨r.lhs, u, x, rest, hx, hc, derives_of_rule_split hr he hd⟩

-- What follows the left-hand side follows a non-terminal behind which all may vanish.
theorem FollowedBy.of_lhs (hr : r ∈ g.rules) (he : r.rhs = u ++ .nonterminal i :: v)
    (hv : g.Derives v []) (h : g.FollowedBy r.lhs c) : g.FollowedBy i c := by
  have hd := derives_of_rule_split hr he hv
  rcases h with ⟨b, w, x, z, hx, hc, hb⟩ | ⟨hc, w, hs⟩
  · refine .inl ⟨b, w ++ u, x, z, hx, hc, ?_⟩
    have ht := hd.in_context w (x :: z)
    simp only [List.append_assoc, List.cons_append, List.nil_append] at ht ⊢
    exact hb.trans ht
  · refine .inr ⟨hc, w ++ u, ?_⟩
    have ht := hd.in_context w []
    simp only [List.append_nil, List.append_assoc] at ht ⊢
    exact hs.trans ht

theorem WellScoped.lt_of_followedBy (hg : g.WellScoped) (h : g.FollowedBy i c) :
    c < g.columnCount := by
  rcases h with ⟨b, u, x, v, hx, rfl, hd⟩ | ⟨rfl, -⟩
  · have hdecl := hg.declares_of_derives hd hx (by simp)
    cases x with
    | terminal j => exact Nat.lt_succ_of_lt hdecl
    | nonterminal j => simp [Symbol.isNonterminal] at hx
    | endOfInput => exact hdecl.elim
  · exact Nat.lt_succ_self _

theorem WellScoped.mem_lookaheads_of_follows (hg : g.WellScoped) {x : Symbol}
    (h : g.Follows x i) : x ∈ g.lookaheads := by
  rcases h with ⟨hx, b, -, u, v, hd⟩ | ⟨rfl, -⟩
  · have hn := isNonterminal_of_isTerminal hx
    exact mem_lookaheads_iff.mpr ⟨hn, .inl (hg.declares_of_derives hd hn (by simp))⟩
  · exact endOfInput_mem_lookaheads g

theorem WellScoped.followedBy_column_iff (hg : g.WellScoped) {x : Symbol}
    (hx : x ∈ g.lookaheads) : g.FollowedBy i (g.column x) ↔ g.Follows x i := by
  constructor
  · rintro (⟨b, u, y, v, hy, hc, hd⟩ | ⟨hc, u, hd⟩)
    · have hdecl := hg.declares_of_derives hd hy (by simp)
      obtain rfl := column_inj (mem_lookaheads_iff.mpr ⟨hy, .inl hdecl⟩) hx hc
      have hb := hg.lt_of_derives hd (by cases u <;> simp)
      exact .inl ⟨isTerminal_of_declares hy hdecl, b, hb, u, v, hd⟩
    · obtain rfl := column_inj hx (endOfInput_mem_lookaheads g) hc
      exact .inr ⟨rfl, u, hd⟩
  · rintro (⟨hx, b, -, u, v, hd⟩ | ⟨rfl, u, hd⟩)
    · exact .inl ⟨b, u, x, v, isNonterminal_of_isTerminal hx, rfl, hd⟩
    · exact .inr ⟨rfl, u, hd⟩

end Grammar

namespace Analysis

variable {g : Grammar} {marks : List Bool} {first follow : List IndexSet} {c : Nat}

-- The sets after the step for one non-terminal of a right-hand side.
def followAt (g : Grammar) (marks : List Bool) (first : List IndexSet) (lhs i : Nat)
    (rest : List Symbol) (follow : List IndexSet) : List IndexSet :=
  let more := follow.modify i fun s => s.union (firstOf g marks first rest).1
  if (firstOf g marks first rest).2 then more.modify i fun s => s.union (setOf more lhs) else more

theorem followStep_cons_nonterminal (lhs i : Nat) (rest : List Symbol) :
    followStep g marks first lhs (.nonterminal i :: rest) follow =
      followStep g marks first lhs rest (followAt g marks first lhs i rest follow) := rfl

theorem followStep_cons_terminal (lhs : Nat) {x : Symbol} (hx : x.isNonterminal = false)
    (rest : List Symbol) :
    followStep g marks first lhs (x :: rest) follow = followStep g marks first lhs rest follow := by
  cases x with
  | nonterminal i => simp [Symbol.isNonterminal] at hx
  | terminal i => rfl
  | endOfInput => rfl

theorem followAt_grows (lhs i : Nat) (rest : List Symbol) (follow : List IndexSet) :
    Grows follow (followAt g marks first lhs i rest follow) := by
  unfold followAt
  split
  · exact (grows_modify_union _ _ _).trans (grows_modify_union _ _ _)
  · exact grows_modify_union _ _ _

theorem followStep_grows (lhs : Nat) (rest : List Symbol) (follow : List IndexSet) :
    Grows follow (followStep g marks first lhs rest follow) := by
  induction rest generalizing follow with
  | nil => exact Grows.refl follow
  | cons x rest ih =>
      cases hx : x.isNonterminal with
      | false =>
          rw [followStep_cons_terminal lhs hx]
          exact ih follow
      | true =>
          cases x with
          | nonterminal i => exact (followAt_grows lhs i rest follow).trans (ih _)
          | terminal i => simp [Symbol.isNonterminal] at hx
          | endOfInput => simp [Symbol.isNonterminal] at hx

-- The step for a right-hand side adds what it should to each of its non-terminals.
theorem mem_followStep {lhs i : Nat} (u : List Symbol) {v : List Symbol}
    (hi : i < follow.length)
    (h : c ∈ (firstOf g marks first v).1 ∨
      ((firstOf g marks first v).2 = true ∧ c ∈ setOf follow lhs)) :
    c ∈ setOf (followStep g marks first lhs (u ++ .nonterminal i :: v) follow) i := by
  induction u generalizing follow with
  | nil =>
      rw [List.nil_append, followStep_cons_nonterminal]
      apply mem_setOf_of_grows (followStep_grows lhs v _)
      rcases h with h | ⟨hn, h⟩
      · have hm : c ∈ setOf (follow.modify i fun s => s.union (firstOf g marks first v).1) i :=
          mem_setOf_modify_union.mpr (.inr ⟨rfl, hi, h⟩)
        unfold followAt
        split
        · exact mem_setOf_of_grows (grows_modify_union _ _ _) hm
        · exact hm
      · simp only [followAt, hn, if_true]
        refine mem_setOf_modify_union.mpr (.inr ⟨rfl, by simpa using hi, ?_⟩)
        exact mem_setOf_of_grows (grows_modify_union _ _ _) h
  | cons x u ih =>
      rw [List.cons_append]
      cases hx : x.isNonterminal with
      | false =>
          rw [followStep_cons_terminal lhs hx]
          exact ih hi h
      | true =>
          cases x with
          | nonterminal j =>
              have hgrow : Grows follow
                  (followAt g marks first lhs j (u ++ .nonterminal i :: v) follow) :=
                followAt_grows lhs j _ follow
              rw [followStep_cons_nonterminal]
              exact ih (hgrow.length_eq ▸ hi)
                (h.imp_right fun h => ⟨h.1, mem_setOf_of_grows hgrow h.2⟩)
          | terminal j => simp [Symbol.isNonterminal] at hx
          | endOfInput => simp [Symbol.isNonterminal] at hx

theorem followAt_sound (hg : g.WellScoped) (hf : SetsSound g.FollowedBy follow) {r : Rule}
    (hr : r ∈ g.rules) {u v : List Symbol} {i : Nat} (he : r.rhs = u ++ .nonterminal i :: v) :
    SetsSound g.FollowedBy (followAt g g.analyse.nullable g.analyse.first r.lhs i v follow) := by
  have hmore : SetsSound g.FollowedBy
      (follow.modify i fun s => s.union (firstOf g g.analyse.nullable g.analyse.first v).1) := by
    intro j c h
    rcases mem_setOf_modify_union.mp h with h | ⟨rfl, -, h⟩
    · exact hf j c h
    · exact Grammar.followedBy_of_beginsWith hr he (hg.mem_firstColumns_iff.mp h)
  unfold followAt
  split
  · rename_i hn
    intro j c h
    rcases mem_setOf_modify_union.mp h with h | ⟨rfl, -, h⟩
    · exact hmore j c h
    · exact .of_lhs hr he (hg.firstColumns_snd_iff.mp hn) (hmore r.lhs c h)
  · exact hmore

theorem followStep_sound (hg : g.WellScoped) (hf : SetsSound g.FollowedBy follow) {r : Rule}
    (hr : r ∈ g.rules) {u v : List Symbol} (he : r.rhs = u ++ v) :
    SetsSound g.FollowedBy
      (followStep g g.analyse.nullable g.analyse.first r.lhs v follow) := by
  induction v generalizing u follow with
  | nil => exact hf
  | cons x v ih =>
      have he' : r.rhs = (u ++ [x]) ++ v := by rw [he, List.append_assoc, List.singleton_append]
      cases hx : x.isNonterminal with
      | false =>
          rw [followStep_cons_terminal r.lhs hx]
          exact ih hf he'
      | true =>
          cases x with
          | nonterminal i => exact ih (followAt_sound hg hf hr he) he'
          | terminal i => simp [Symbol.isNonterminal] at hx
          | endOfInput => simp [Symbol.isNonterminal] at hx

-- The sets that the computation of FOLLOW starts with.
def followStart (g : Grammar) : List IndexSet :=
  (List.replicate g.nonterminals.length .empty).modify g.start fun s =>
    s.insert (g.column .endOfInput)

-- FOLLOW sets of an analysed grammar are justified, closed under the rules, and the start symbol
-- is followed by the end of input.
theorem analyse_follow (hg : g.WellScoped) :
    g.analyse.follow.length = g.nonterminals.length ∧ SetsSound g.FollowedBy g.analyse.follow ∧
      (∀ r ∈ g.rules, followStep g g.analyse.nullable g.analyse.first r.lhs r.rhs g.analyse.follow =
        g.analyse.follow) ∧
      g.column .endOfInput ∈ setOf g.analyse.follow g.start := by
  have hgrow : ∀ follow (r : Rule), Grows follow
      (followStep g g.analyse.nullable g.analyse.first r.lhs r.rhs follow) :=
    fun follow r => followStep_grows r.lhs r.rhs follow
  have hlength : (followStart g).length = g.nonterminals.length := by simp [followStart]
  have hstart : SetsSound g.FollowedBy (followStart g) := by
    intro i c h
    rcases mem_setOf_modify_insert.mp h with h | ⟨rfl, -, rfl⟩
    · simp at h
    · exact .inr ⟨rfl, [], .refl _⟩
  have h := fixedPoint_sets
    (fun follow (r : Rule) => followStep g g.analyse.nullable g.analyse.first r.lhs r.rhs follow)
    g.columnCount (fun i c h => hg.lt_of_followedBy h) hgrow
    (fun follow r hr hf => followStep_sound hg hf hr (List.nil_append r.rhs).symm)
    hlength hstart
  have hend : g.column .endOfInput ∈ setOf (followStart g) g.start :=
    mem_setOf_modify_insert.mpr (.inr ⟨rfl, by simpa using hg.start_lt, rfl⟩)
  have hmore := grows_fixedPoint hgrow g.rules (g.nonterminals.length * g.columnCount + 1)
    (followStart g)
  exact ⟨h.1, h.2.1, h.2.2, mem_setOf_of_grows hmore hend⟩

end Analysis

namespace Grammar.WellScoped

open Analysis

variable {g : Grammar} {i c : Nat}

theorem follow_closed (hg : g.WellScoped) {r : Rule} (hr : r ∈ g.rules) {u v : List Symbol}
    (he : r.rhs = u ++ .nonterminal i :: v)
    (h : g.BeginsWith v c ∨ (g.Derives v [] ∧ c ∈ setOf g.analyse.follow r.lhs)) :
    c ∈ setOf g.analyse.follow i := by
  obtain ⟨hlen, -, hstep, -⟩ := analyse_follow hg
  have hi : i < g.nonterminals.length := hg.rhs_declared r hr (.nonterminal i) (by simp [he])
  rw [← hstep r hr, he]
  apply mem_followStep u (hlen ▸ hi)
  rcases h with h | ⟨hv, h⟩
  · exact .inl (hg.mem_firstColumns_iff.mpr h)
  · exact .inr ⟨hg.firstColumns_snd_iff.mpr hv, h⟩

-- Along a derivation from a non-terminal `b`, FOLLOW of every non-terminal `i` contains what the
-- string behind it begins with, and if that string may vanish, FOLLOW of `b`.
theorem follow_along (hg : g.WellScoped) {b : Nat} {s : List Symbol}
    (h : g.Derives [.nonterminal b] s) : ∀ u i v, s = u ++ .nonterminal i :: v →
      ∀ c, (g.BeginsWith v c ∨ (g.Derives v [] ∧ c ∈ setOf g.analyse.follow b)) →
        c ∈ setOf g.analyse.follow i := by
  induction h with
  | refl =>
      intro u i v he c hc
      rw [eq_comm, List.append_eq_singleton_iff] at he
      rcases he with ⟨rfl, he⟩ | ⟨-, he⟩
      · obtain ⟨hi, rfl⟩ := List.cons.inj he
        cases hi
        rcases hc with ⟨x, rest, -, -, hd⟩ | ⟨-, hc⟩
        · exact absurd (hd.eq_of_terminals (by simp)) (by simp)
        · exact hc
      · simp at he
  | tail _ hs ih =>
      cases hs with
      | rule r hr a b' =>
          intro u i v he c hc
          rcases occurrence_append he with ⟨w, hw, rfl⟩ | ⟨w, rfl, rfl⟩
          · rcases occurrence_append hw with ⟨w', rfl, rfl⟩ | ⟨w', rfl, hrhs⟩
            · -- in front of the replaced non-terminal
              have hd := (Relation.ReflTransGen.single (Rewrites.rule r hr w' b') :
                g.Derives (w' ++ .nonterminal r.lhs :: b') (w' ++ r.rhs ++ b'))
              refine ih u i (w' ++ .nonterminal r.lhs :: b') (by simp) c ?_
              exact hc.imp (fun h => .of_derives hd h) fun h => ⟨hd.trans h.1, h.2⟩
            · -- within the right-hand side
              have hlhs := ih a r.lhs b' rfl c
              apply hg.follow_closed hr hrhs
              rcases hc with hc | ⟨hn, hc⟩
              · exact (beginsWith_append_cases hc).imp_right fun h => ⟨h.1, hlhs (.inl h.2)⟩
              · obtain ⟨m₁, m₂, hnil, h₁, h₂⟩ := hn.append_cases
                obtain ⟨rfl, rfl⟩ := List.append_eq_nil_iff.mp hnil.symm
                exact .inr ⟨h₁, hlhs (.inr ⟨h₂, hc⟩)⟩
          · -- behind the replaced non-terminal
            exact ih (a ++ .nonterminal r.lhs :: w) i v (by simp) c hc

theorem mem_follow_iff (hg : g.WellScoped) :
    c ∈ setOf g.analyse.follow i ↔ g.FollowedBy i c := by
  constructor
  · exact (analyse_follow hg).2.1 i c
  · rintro (⟨b, u, x, v, hx, rfl, hd⟩ | ⟨rfl, u, hd⟩)
    · exact hg.follow_along hd u i (x :: v) rfl _ (.inl ((beginsWith_cons_terminal hx).mpr rfl))
    · exact hg.follow_along hd u i [] rfl _ (.inr ⟨.refl [], (analyse_follow hg).2.2.2⟩)

end Grammar.WellScoped

end Lookahead
