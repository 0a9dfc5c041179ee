import Lookahead.Proofs.Analysis.Follow
import Lookahead.Proofs.Analysis.LeftCorner
import Lookahead.Proofs.Builder.SymbolTable
import Lookahead.Proofs.Sentence

/-!
What an analysis answers, as lists of symbols. For every grammar that comes out of a builder, FIRST
and FOLLOW list exactly the lookaheads that derivations allow, and the left-recursive non-terminals
are exactly those that come to stand in front of themselves.
-/

namespace Lookahead

namespace Grammar

-- All non-terminals, in order of registration.
def nonterminalSymbols (g : Grammar) : List Symbol :=
  (List.range g.nonterminals.length).map .nonterminal

-- Whether a symbol comes behind a non-terminal in a sentential form, or the form ends there.
def FollowsInForm (g : Grammar) (x : Symbol) (i : Nat) : Prop :=
  (x.isTerminal = true ∧ ∃ u v,
      g.Derives [.nonterminal g.start] (u ++ .nonterminal i :: x :: v)) ∨
    (x = .endOfInput ∧ ∃ u, g.Derives [.nonterminal g.start] (u ++ [.nonterminal i]))

namespace WellScoped

open Analysis

variable {g : Grammar} {s : List Symbol} {i : Nat} {x : Symbol}

theorem enumerates_first (hg : g.WellScoped) (hs : ∀ x ∈ s, g.IsSymbol x) :
    Enumerates g.lookaheads (g.analyse.firstOfString s).1
      fun x => x.isNonterminal = false ∧ ∃ rest, g.Derives s (x :: rest) := by
  have hbound : ∀ c ∈ (g.analyse.firstColumns s).1, c < g.columnCount := fun c hc =>
    hg.lt_columnCount_of_beginsWith hs (hg.mem_firstColumns_iff.mp hc)
  refine (enumerates_symbols hbound).congr fun x => ?_
  constructor
  · rintro ⟨hx, hc⟩
    have hbegins := hg.mem_firstColumns_iff.mp hc
    exact ⟨(mem_lookaheads_iff.mp hx).1, (hg.beginsWith_column_iff hs hx).mp hbegins⟩
  · rintro ⟨hn, rest, hd⟩
    have hx := hg.mem_lookaheads hs hd hn List.mem_cons_self
    have hbegins := (hg.beginsWith_column_iff hs hx).mpr ⟨rest, hd⟩
    exact ⟨hx, hg.mem_firstColumns_iff.mpr hbegins⟩

theorem enumerates_follow (hg : g.WellScoped) (i : Nat) :
    Enumerates g.lookaheads (g.analyse.symbols (setOf g.analyse.follow i)) (g.Follows · i) := by
  have hbound : ∀ c ∈ setOf g.analyse.follow i, c < g.columnCount := fun c hc =>
    hg.lt_of_followedBy (hg.mem_follow_iff.mp hc)
  refine (enumerates_symbols hbound).congr fun x => ?_
  rw [hg.mem_follow_iff]
  constructor
  · rintro ⟨hx, hc⟩
    exact (hg.followedBy_column_iff hx).mp hc
  · intro h
    have hx := hg.mem_lookaheads_of_follows h
    exact ⟨hx, (hg.followedBy_column_iff hx).mpr h⟩

-- Derivations from reachable non-terminals take place within sentential forms.
theorem follows_iff_followsInForm (hg : g.WellScoped)
    (hreachable : ∀ j < g.nonterminals.length, g.IsReachable j) :
    g.Follows x i ↔ g.FollowsInForm x i := by
  refine or_congr_left (and_congr_right fun _ => ⟨?_, ?_⟩)
  · rintro ⟨b, hb, u, v, hd⟩
    obtain ⟨front, back, hform⟩ := hreachable b hb
    have hall := hd.in_context front back
    simp only [List.append_assoc, List.cons_append] at hall
    exact ⟨front ++ u, v ++ back, by simpa using hform.trans hall⟩
  · rintro ⟨u, v, hd⟩
    exact ⟨g.start, hg.start_lt, u, v, hd⟩

end WellScoped

end Grammar

namespace Analysis

variable {g : Grammar} {s : List Symbol} {x : Symbol}

-- FIRST and nullability of one symbol are those of the string that consists of it.
theorem firstOfString_singleton (hx : g.IsSymbol x) :
    g.analyse.firstOfString [x] = (g.analyse.firstSymbols x, g.analyse.nullableSymbol x) := by
  cases hn : x.isNonterminal with
  | false =>
      have hcolumn := Grammar.columnSymbol_column (Grammar.mem_lookaheads_iff.mpr ⟨hn, hx⟩)
      cases x with
      | nonterminal i => simp [Symbol.isNonterminal] at hn
      | terminal i => exact congrArg (fun y => ([y], false)) hcolumn
      | endOfInput => exact congrArg (fun y => ([y], false)) hcolumn
  | true =>
      cases x with
      | nonterminal i =>
          simp only [firstOfString, firstColumns, firstOf, firstSymbols, nullableSymbol, isNullable]
          cases g.analyse.nullable.getD i false <;> rfl
      | terminal i => simp [Symbol.isNonterminal] at hn
      | endOfInput => simp [Symbol.isNonterminal] at hn

-- The first attempt resolves the empty rule and fails for want of a terminal, the second one resolves
-- all rules. The recursion of `S` is hidden behind `B`, which vanishes.
def repairs : List Builder.Operation :=
  [.terminal (text "y") 0x79, .nonterminal (text "S"), .nonterminal (text "B"),
    .setStart (text "S"), .beginRule (text "B"), .closeEmpty ⟨0⟩,
    .beginRule (text "S"), .append ⟨1⟩ ⟨text "B", .nonterminal⟩,
    .append ⟨1⟩ ⟨text "S", .nonterminal⟩, .append ⟨1⟩ ⟨text "x", .terminal⟩, .close ⟨1⟩,
    .beginRule (text "S"), .append ⟨2⟩ ⟨text "y", .terminal⟩, .close ⟨2⟩,
    .build, .terminal (text "x") 0x78]

def repaired : Grammar :=
  let rules : List Rule :=
    [⟨0, 1, []⟩, ⟨1, 0, [.nonterminal 1, .nonterminal 0, .terminal 1]⟩, ⟨2, 0, [.terminal 0]⟩]
  { name := text "G", terminals := [⟨text "y", 0x79⟩, ⟨text "x", 0x78⟩],
    nonterminals := [text "S", text "B"], rules := ⟨0, 1, []⟩ :: rules, declared := rules,
    start := 0 }

theorem isBuild_repaired : repaired.IsBuild :=
  ⟨text "G", repairs, eq_ok_of_toOption (by decide +kernel)⟩

theorem isReachable_repaired : ∀ j < repaired.nonterminals.length, repaired.IsReachable j := by
  have hrule : repaired.Derives [.nonterminal 0] [.nonterminal 1, .nonterminal 0, .terminal 1] :=
    Grammar.derives_rule (r := ⟨1, 0, [.nonterminal 1, .nonterminal 0, .terminal 1]⟩) (by decide)
  intro j hj
  have hcases : j = 0 ∨ j = 1 := by
    have hj : j < 2 := hj
    omega
  rcases hcases with rfl | rfl
  · exact ⟨[], [], .refl _⟩
  · exact ⟨[], _, hrule⟩

-- FIRST of a string lists the lookaheads that it may begin with, once each and in order, and the
-- flag tells whether the string may vanish.
theorem firstOfString_exact (hg : g.IsBuild) (hs : ∀ x ∈ s, g.IsSymbol x) :
    Enumerates g.lookaheads (g.analyse.firstOfString s).1
        (fun x => x.isNonterminal = false ∧ ∃ rest, g.Derives s (x :: rest)) ∧
      ((g.analyse.firstOfString s).2 = true ↔ g.Derives s []) ∧
      ∀ x, g.IsSymbol x →
        (g.analyse.firstSymbols x, g.analyse.nullableSymbol x) = g.analyse.firstOfString [x] := by
  have hscoped := hg.hasSymbols.wellScoped
  exact ⟨hscoped.enumerates_first hs, hscoped.firstColumns_snd_iff,
    fun x hx => (firstOfString_singleton hx).symm⟩

theorem firstOfString_repaired :
    (∃ rest, repaired.Derives [.nonterminal 1, .nonterminal 0] (.terminal 0 :: rest)) ∧
      (¬∃ rest, repaired.Derives [.nonterminal 1, .nonterminal 0] (.terminal 1 :: rest)) ∧
      ¬repaired.Derives [.nonterminal 1, .nonterminal 0] [] := by
  have hs : ∀ x ∈ [Symbol.nonterminal 1, .nonterminal 0], repaired.IsSymbol x := by
    simp [Grammar.IsSymbol, Grammar.Declares, Symbol.IsAmong, repaired]
  obtain ⟨hfirst, hflag, -⟩ := firstOfString_exact isBuild_repaired hs
  have hin := (hfirst.mem_iff (.terminal 0)).mp (by decide +kernel)
  have hout := mt (hfirst.mem_iff (.terminal 1)).mpr (by decide +kernel)
  exact ⟨hin.2, fun h => hout ⟨rfl, h⟩, mt hflag.mpr (by decide +kernel)⟩

-- FOLLOW of a non-terminal lists the lookaheads that follow it in derivations from any non-terminal.
-- If all of these are reachable, they are the lookaheads that follow it in sentential forms.
theorem followSymbols_exact (hg : g.IsBuild) (i : Nat) :
    ∃ l, g.analyse.followSymbols? (.nonterminal i) = some l ∧
      Enumerates g.lookaheads l (g.Follows · i) ∧
      ((∀ j < g.nonterminals.length, g.IsReachable j) →
        Enumerates g.lookaheads l (g.FollowsInForm · i)) := by
  have hscoped := hg.hasSymbols.wellScoped
  have hfollows := hscoped.enumerates_follow i
  exact ⟨_, rfl, hfollows, fun hreachable =>
    hfollows.congr fun x => hscoped.follows_iff_followsInForm hreachable⟩

theorem followSymbols_repaired :
    repaired.analyse.followSymbols? (.nonterminal 0) = some [.terminal 1, .endOfInput] ∧
      (∃ u v, repaired.Derives [.nonterminal 0] (u ++ .nonterminal 0 :: .terminal 1 :: v)) ∧
      ¬repaired.FollowsInForm (.terminal 0) 0 := by
  have hlist : repaired.analyse.followSymbols? (.nonterminal 0) =
      some [.terminal 1, .endOfInput] := by
    decide +kernel
  obtain ⟨l, hl, -, hforms⟩ := followSymbols_exact isBuild_repaired 0
  obtain rfl := Option.some.inj (hlist.symm.trans hl)
  have hfollows := hforms isReachable_repaired
  refine ⟨hlist, ?_, mt (hfollows.mem_iff _).mpr (by decide)⟩
  rcases (hfollows.mem_iff (.terminal 1)).mp (by decide) with ⟨-, h⟩ | ⟨h, -⟩
  · exact h
  · cases h

-- The left-recursive non-terminals are listed once each and in order of registration.
theorem leftRecursive_exact (hg : g.IsBuild) :
    Enumerates g.nonterminalSymbols g.analyse.leftRecursive fun x =>
      x.isNonterminal = true ∧ ∃ rest, g.DerivesProperly [x] (x :: rest) := by
  have hscoped := hg.hasSymbols.wellScoped
  have hinj : Function.Injective Symbol.nonterminal := fun i j h => Symbol.nonterminal.inj h
  refine ⟨List.filter_sublist.map _, (List.nodup_range.filter _).map hinj, fun x => ?_⟩
  cases x with
  | nonterminal i => simpa [Symbol.isNonterminal] using hscoped.mem_leftRecursive_iff
  | terminal i => simp [leftRecursive, Symbol.isNonterminal]
  | endOfInput => simp [leftRecursive, Symbol.isNonterminal]

theorem leftRecursive_repaired :
    (∃ rest, repaired.DerivesProperly [.nonterminal 0] (.nonterminal 0 :: rest)) ∧
      ¬∃ rest, repaired.DerivesProperly [.nonterminal 1] (.nonterminal 1 :: rest) := by
  have hlist := leftRecursive_exact isBuild_repaired
  have hout := mt (hlist.mem_iff (.nonterminal 1)).mpr (by decide +kernel)
  exact ⟨((hlist.mem_iff _).mp (by decide +kernel)).2, fun h => hout ⟨rfl, h⟩⟩

end Analysis

end Lookahead
