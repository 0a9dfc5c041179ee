import Lookahead.Analysis
import Lookahead.Proofs.Builder
import Lookahead.Proofs.Derivation
import Lookahead.Proofs.FixedPoint
import Mathlib.Order.Lattice

/-!
The non-terminals marked as nullable are exactly those that derive the empty string.
-/

namespace Lookahead

namespace Analysis

variable {g : Grammar} {marks : List Bool}

-- Only non-terminals that derive the empty string are marked.
def MarksSound (g : Grammar) (marks : List Bool) : Prop :=
  ∀ i, marks.getD i false = true → g.Derives [.nonterminal i] []

theorem MarksSound.derives_nil (h : MarksSound g marks) {s : List Symbol}
    (hs : s.all (isNullable marks) = true) : g.Derives s [] := by
  induction s with
  | nil => exact .refl []
  | cons x rest ih =>
      simp only [List.all_cons, Bool.and_eq_true] at hs
      refine Grammar.derives_nil_cons.mpr ⟨?_, ih hs.2⟩
      cases x with
      | nonterminal i => exact h i hs.1
      | terminal i => simp [isNullable] at hs
      | endOfInput => simp [isNullable] at hs

theorem nullableStep_sound (h : MarksSound g marks) {r : Rule} (hr : r ∈ g.rules) :
    MarksSound g (nullableStep marks r) := by
  unfold nullableStep
  split
  · rename_i hall
    intro i hi
    by_cases he : r.lhs = i
    · exact he ▸ (Grammar.derives_rule hr).trans (h.derives_nil hall)
    · rw [List.getD_eq_getElem?_getD, List.getElem?_set_ne he, ← List.getD_eq_getElem?_getD] at hi
      exact h i hi
  · exact h

theorem nullableStep_grows (marks : List Bool) (r : Rule) : Grows marks (nullableStep marks r) := by
  unfold nullableStep
  split
  · rw [List.set_eq_modify]
    exact grows_modify (fun b => Bool.le_true b) marks r.lhs
  · exact Grows.refl marks

-- What is known of the marks of an analysed grammar: they are sound, and closed under the rules.
theorem analyse_nullable (g : Grammar) :
    g.analyse.nullable.length = g.nonterminals.length ∧ MarksSound g g.analyse.nullable ∧
      ∀ r ∈ g.rules, nullableStep g.analyse.nullable r = g.analyse.nullable := by
  have hsize : StrictMono Bool.toNat := by
    unfold StrictMono
    decide
  have hstart : MarksSound g (List.replicate g.nonterminals.length false) := by
    intro i hi
    rw [List.getD_eq_getElem?_getD, List.getElem?_replicate] at hi
    split at hi <;> simp at hi
  have h := fixedPoint_foldl nullableStep g.rules g.nonterminals.length 1
    (fun marks => marks.length = g.nonterminals.length ∧ MarksSound g marks)
    hsize nullableStep_grows
    (fun marks r hr hm => ⟨by rw [← (nullableStep_grows marks r).length_eq, hm.1],
      nullableStep_sound hm.2 hr⟩)
    (fun _ hm => hm.1) (fun _ _ b _ => Bool.toNat_le b)
    (x := List.replicate g.nonterminals.length false) ⟨by simp, hstart⟩
  rw [Nat.mul_one] at h
  exact ⟨h.1.1, h.1.2, h.2⟩

end Analysis

namespace Grammar.WellScoped

open Analysis

variable {g : Grammar}

theorem marks_closed (hg : g.WellScoped) {r : Rule} (hr : r ∈ g.rules)
    (h : r.rhs.all (isNullable g.analyse.nullable) = true) :
    g.analyse.nullable.getD r.lhs false = true := by
  obtain ⟨hlen, -, hstep⟩ := analyse_nullable g
  have hs := hstep r hr
  rw [nullableStep, if_pos h] at hs
  have hlt : r.lhs < g.analyse.nullable.length := hlen ▸ hg.lhs_lt r hr
  rw [← hs, List.getD_eq_getElem?_getD, List.getElem?_set_self hlt]
  rfl

theorem all_isNullable_iff (hg : g.WellScoped) {s : List Symbol} :
    s.all (isNullable g.analyse.nullable) = true ↔ g.Derives s [] := by
  constructor
  · exact (analyse_nullable g).2.1.derives_nil
  · intro h
    -- from the end of the derivation backwards, all forms consist of marked non-terminals
    induction h using Relation.ReflTransGen.head_induction_on with
    | refl => rfl
    | head hs _ ih =>
        cases hs with
        | rule r hr u v =>
            simp only [List.all_append, List.all_cons, Bool.and_eq_true] at ih ⊢
            exact ⟨ih.1.1, hg.marks_closed hr ih.1.2, ih.2⟩

end Grammar.WellScoped

end Lookahead
