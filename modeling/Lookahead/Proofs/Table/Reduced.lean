import Lookahead.Proofs.Sentence
import Lookahead.Proofs.Table.Verdict

/-!
Reduced grammars: every non-terminal leads to terminals and is reached from the start symbol. There,
left recursion always shows as a conflict. A derivation that ends has to leave the recursion
somewhere, by a rule other than the recursive one, and that rule shares a trigger with it.
-/

namespace Lookahead

namespace Grammar

def IsReduced (g : Grammar) : Prop :=
  ∀ i < g.nonterminals.length, g.IsProductive (.nonterminal i) ∧ g.IsReachable i

variable {g : Grammar} {r r' : Rule} {s t v : List Symbol} {i : Nat}

theorem IsReduced.isProductive (h : g.IsReduced) :
    ∀ i < g.nonterminals.length, g.IsProductive (.nonterminal i) := fun i hi => (h i hi).1

-- Something follows every non-terminal of a reduced grammar.
theorem WellFormed.exists_followedBy (hg : g.WellFormed) (h : g.IsReduced)
    (hi : i < g.nonterminals.length) : ∃ c, g.FollowedBy i c := by
  obtain ⟨u, v, hd⟩ := (h i hi).2
  have hdeclared := hg.declares_of_mem hd (by simpa using hg.declares_start)
  obtain ⟨t, ht, hv⟩ := exists_terminalString (g := g) (s := v) fun x hx =>
    isProductive_of_declares h.isProductive (hdeclared x (by simp [hx]))
  have hall : g.Derives [.nonterminal g.start] (u ++ .nonterminal i :: t) :=
    hd.trans ((Derives.refl u).append ((Derives.refl [_]).append hv))
  cases t with
  | nil => exact ⟨_, .inr ⟨rfl, u, hall⟩⟩
  | cons x rest =>
      have hx := isNonterminal_of_isTerminal (ht x List.mem_cons_self)
      exact ⟨_, .inl ⟨g.start, u, x, rest, hx, rfl, hall⟩⟩

-- A rule that ends a left recursion shares a trigger with the rule that goes on with it.
theorem WellFormed.exists_common_trigger (hg : g.WellFormed) (h : g.IsReduced) (hr : r ∈ g.rules)
    (hr' : r' ∈ g.rules) (hlhs : r'.lhs = r.lhs) (ht : IsTerminalString t)
    (hend : g.Derives r.rhs t) (hagain : g.Derives r'.rhs (.nonterminal r.lhs :: v)) :
    ∃ c, c ∈ Table.triggers g.analyse r ∧ c ∈ Table.triggers g.analyse r' := by
  simp only [hg.mem_triggers_iff, hlhs]
  have hthrough : g.Derives r'.rhs (t ++ v) :=
    hagain.trans (((derives_rule hr).trans hend).append (.refl v))
  cases t with
  | cons x rest =>
      have hx := isNonterminal_of_isTerminal (ht x List.mem_cons_self)
      exact ⟨g.column x, .inl ⟨x, rest, hx, rfl, hend⟩, .inl ⟨x, rest ++ v, hx, rfl, hthrough⟩⟩
  | nil =>
      -- what is left of the recursion decides
      have hdeclared := hg.declares_of_mem hagain (hg.rhs_declared r' hr')
      obtain ⟨w, hw, hv⟩ := exists_terminalString (g := g) (s := v) fun x hx =>
        isProductive_of_declares h.isProductive (hdeclared x (List.mem_cons_of_mem _ hx))
      cases w with
      | nil =>
          obtain ⟨c, hc⟩ := hg.exists_followedBy h (hg.lhs_lt r hr)
          exact ⟨c, .inr ⟨hend, hc⟩, .inr ⟨hthrough.trans hv, hc⟩⟩
      | cons x rest =>
          have hx := isNonterminal_of_isTerminal (hw x List.mem_cons_self)
          have hfollow : g.Derives [.nonterminal r.lhs] (.nonterminal r.lhs :: x :: rest) := by
            rw [← hlhs] at hagain ⊢
            exact ((derives_rule hr').trans hagain).trans ((Derives.refl [_]).append hv)
          exact ⟨g.column x, .inr ⟨hend, .inl ⟨r.lhs, [], x, rest, hx, rfl, hfollow⟩⟩,
            .inl ⟨x, rest, hx, rfl, hthrough.trans hv⟩⟩

-- Without common triggers, no string that leads to terminals holds a left-recursive non-terminal.
-- From the end of the derivation backwards, a recursion would have to go on with the rule in use.
theorem WellFormed.not_leftCorner_self (hg : g.WellFormed) (h : g.IsReduced)
    (hunique : ∀ r ∈ g.rules, ∀ r' ∈ g.rules, r.lhs = r'.lhs → ∀ c,
      c ∈ Table.triggers g.analyse r → c ∈ Table.triggers g.analyse r' → r = r')
    (ht : IsTerminalString t) (hd : g.Derives s t) :
    ∀ i, .nonterminal i ∈ s → ¬Relation.TransGen g.LeftCorner i i := by
  induction hd using Relation.ReflTransGen.head_induction_on with
  | refl =>
      intro i hi
      simpa [Symbol.isTerminal] using ht _ hi
  | head hs hd ih =>
      cases hs with
      | rule r hr u v =>
          intro i hi
          rcases List.mem_append.mp hi with hi | hi
          · exact ih i (by simp [hi])
          rcases List.mem_cons.mp hi with hi | hi
          · obtain rfl := Symbol.nonterminal.inj hi
            intro hcorner
            obtain ⟨rest, hagain⟩ := transGen_leftCorner_iff.mp hcorner
            obtain ⟨r', hr', hlhs, hagain⟩ := hagain.rule
            -- the part of the terminals that comes from the rule in use
            obtain ⟨t₁, t₂, rfl, hd₁, -⟩ := Derives.append_cases hd
            obtain ⟨t₀, t₁, rfl, -, hend⟩ := hd₁.append_cases
            have ht₁ := (isTerminalString_append.mp (isTerminalString_append.mp ht).1).2
            obtain ⟨c, hc, hc'⟩ := hg.exists_common_trigger h hr hr' hlhs ht₁ hend hagain
            obtain rfl := hunique r hr r' hr' hlhs.symm c hc hc'
            obtain ⟨a, k, b, hrhs, ha, hk⟩ := front_of_derives hagain [] r.lhs rest rfl (.refl [])
            exact ih k (by simp [hrhs]) (.tail' hk ⟨r, hr, rfl, a, b, hrhs, ha⟩)
          · exact ih i (by simp [hi])

end Grammar

namespace Table

variable {g : Grammar}

-- Left recursion in a reduced grammar is not missed by the table.
theorem conflicts_of_leftRecursive (hg : g.IsFirstBuild) (hsmall : g.rules.length < 2 ^ 31)
    (hreduced : g.IsReduced) (hl : g.analyse.leftRecursive ≠ []) (options : List Policy) :
    ∃ t, build g.analyse options = .ok t ∧ t.conflicts ≠ [] := by
  have hwf := hg.wellFormed
  obtain ⟨t, hb, -⟩ := hwf.build_holds hsmall options
  refine ⟨t, hb, fun hnone => ?_⟩
  have hunique := (conflicts_eq_nil_iff hb hwf hsmall).mp hnone
  obtain ⟨i, rest, hrec⟩ := hwf.leftRecursive_ne_nil_iff.mp hl
  have hcorner := Grammar.transGen_leftCorner_iff.mpr ⟨rest, hrec⟩
  obtain ⟨s, hs, hd⟩ := (hreduced i (hwf.lt_of_leftCorner hcorner)).1
  exact hwf.not_leftCorner_self hreduced hunique hs hd i List.mem_cons_self hcorner

-- Recursion behind a non-terminal that vanishes.
def hiddenRecursion : Grammar :=
  let rules : List Rule :=
    [⟨0, 0, [.nonterminal 1, .nonterminal 0, .terminal 0]⟩, ⟨1, 0, [.terminal 1]⟩, ⟨2, 1, []⟩]
  { name := text "Hidden", terminals := [⟨text "x", 0x78⟩, ⟨text "y", 0x79⟩],
    nonterminals := [text "S", text "B"], rules := rules, declared := rules, start := 0 }

theorem isFirstBuild_hiddenRecursion : hiddenRecursion.IsFirstBuild := by
  apply GrammarSource.isFirstBuild (s := ⟨text "Hidden", hiddenRecursion.terminals,
    hiddenRecursion.nonterminals, text "S",
    [⟨text "S", [⟨text "B", .nonterminal⟩, ⟨text "S", .nonterminal⟩, ⟨text "x", .terminal⟩]⟩,
      ⟨text "S", [⟨text "y", .terminal⟩]⟩, ⟨text "B", []⟩]⟩)
  decide +kernel

theorem isReduced_hiddenRecursion : hiddenRecursion.IsReduced := by
  have hs : hiddenRecursion.IsProductive (.nonterminal 0) :=
    .of_rule (r := ⟨1, 0, [.terminal 1]⟩) (by decide)
      (by simpa using Grammar.isProductive_terminal hiddenRecursion 1)
  have hb : hiddenRecursion.IsProductive (.nonterminal 1) :=
    .of_rule (r := ⟨2, 1, []⟩) (by decide) (by simp)
  have hrule : hiddenRecursion.Derives [.nonterminal 0]
      [.nonterminal 1, .nonterminal 0, .terminal 0] :=
    Grammar.derives_rule (r := ⟨0, 0, [.nonterminal 1, .nonterminal 0, .terminal 0]⟩) (by decide)
  intro i hi
  have hcases : i = 0 ∨ i = 1 := by
    have hi : i < 2 := hi
    omega
  rcases hcases with rfl | rfl
  · exact ⟨hs, [], [], .refl _⟩
  · exact ⟨hb, [], _, hrule⟩

theorem conflicts_of_hiddenRecursion :
    hiddenRecursion.IsReduced ∧ hiddenRecursion.analyse.leftRecursive = [.nonterminal 0] ∧
      ∃ t, build hiddenRecursion.analyse [.bestEffort] = .ok t ∧ t.conflicts ≠ [] := by
  have hl : hiddenRecursion.analyse.leftRecursive = [.nonterminal 0] := by decide +kernel
  exact ⟨isReduced_hiddenRecursion, hl, conflicts_of_leftRecursive isFirstBuild_hiddenRecursion
    (by decide) isReduced_hiddenRecursion (by simp [hl]) [.bestEffort]⟩

end Table

end Lookahead
