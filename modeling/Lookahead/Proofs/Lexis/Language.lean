import Lookahead.Lexis.Regex
import Mathlib.Data.List.Basic
import Mathlib.Data.Nat.Find

/-!
The texts that a regular expression matches.
-/

namespace Lookahead

namespace Regex

inductive Matches : Regex → Text → Prop
  | epsilon : Matches .epsilon []
  | bytes {c : ByteClass} {b : UInt8} (h : c.contains b = true) : Matches (.bytes c) [b]
  | cat {r s : Regex} {t u : Text} (hr : Matches r t) (hs : Matches s u) :
      Matches (.cat r s) (t ++ u)
  | left {r s : Regex} {t : Text} (hr : Matches r t) : Matches (.alt r s) t
  | right {r s : Regex} {t : Text} (hs : Matches s t) : Matches (.alt r s) t
  | stop {r : Regex} : Matches (.star r) []
  | more {r : Regex} {t u : Text} (hr : Matches r t) (hstar : Matches (.star r) u) :
      Matches (.star r) (t ++ u)
  | plus {r : Regex} {t u : Text} (hr : Matches r t) (hstar : Matches (.star r) u) :
      Matches (.plus r) (t ++ u)
  | absent {r : Regex} : Matches (.optional r) []
  | present {r : Regex} {t : Text} (hr : Matches r t) : Matches (.optional r) t

variable {r s : Regex} {t : Text}

theorem Matches.cat_inv (h : Matches (.cat r s) t) :
    ∃ u v, t = u ++ v ∧ Matches r u ∧ Matches s v := by
  cases h with
  | cat hr hs => exact ⟨_, _, rfl, hr, hs⟩

theorem Matches.plus_inv (h : Matches (.plus r) t) :
    ∃ u v, t = u ++ v ∧ Matches r u ∧ Matches (.star r) v := by
  cases h with
  | plus hr hstar => exact ⟨_, _, rfl, hr, hstar⟩

-- Iterations that take nothing are left out.
theorem Matches.star_inv (h : Matches (.star r) t) (hne : t ≠ []) :
    ∃ u v, t = u ++ v ∧ u ≠ [] ∧ Matches r u ∧ Matches (.star r) v := by
  generalize hs : Regex.star r = s at h
  induction h with
  | stop => exact absurd rfl hne
  | @more r' t u hr hstar _ ih =>
      cases hs
      by_cases ht : t = []
      · subst ht
        exact ih hne rfl
      · exact ⟨t, u, rfl, ht, hr, hstar⟩
  | _ => cases hs

-- The empty text is matched by what is called nullable.
theorem nullable_iff : r.nullable = true ↔ Matches r [] := by
  induction r with
  | epsilon => exact ⟨fun _ => .epsilon, fun _ => rfl⟩
  | bytes c => exact ⟨nofun, nofun⟩
  | cat r s ihr ihs =>
      rw [nullable, Bool.and_eq_true, ihr, ihs]
      refine ⟨fun ⟨hr, hs⟩ => hr.cat hs, fun h => ?_⟩
      obtain ⟨u, v, heq, hr, hs⟩ := h.cat_inv
      obtain ⟨rfl, rfl⟩ := List.append_eq_nil_iff.mp heq.symm
      exact ⟨hr, hs⟩
  | alt r s ihr ihs =>
      rw [nullable, Bool.or_eq_true, ihr, ihs]
      refine ⟨fun h => h.elim .left .right, fun h => ?_⟩
      cases h with
      | left hr => exact .inl hr
      | right hs => exact .inr hs
  | star r ih => exact ⟨fun _ => .stop, fun _ => rfl⟩
  | plus r ih =>
      rw [nullable, ih]
      refine ⟨fun hr => hr.plus .stop, fun h => ?_⟩
      obtain ⟨u, v, heq, hr, -⟩ := h.plus_inv
      obtain ⟨rfl, rfl⟩ := List.append_eq_nil_iff.mp heq.symm
      exact hr
  | optional r ih => exact ⟨fun _ => .absent, fun _ => rfl⟩

-- The expression at a place of a list matches a text, and none in front of it does.
def MatchesFirst (rs : List Regex) (rule : Nat) (t : Text) : Prop :=
  (∃ r, rs[rule]? = some r ∧ r.Matches t) ∧ ∀ i < rule, ∀ r, rs[i]? = some r → ¬r.Matches t

theorem exists_matchesFirst {rs : List Regex} (hr : r ∈ rs) (h : r.Matches t) :
    ∃ rule, MatchesFirst rs rule t := by
  classical
  obtain ⟨rule, hrule⟩ := List.mem_iff_getElem?.mp hr
  have hex : ∃ rule, ∃ r : Regex, rs[rule]? = some r ∧ r.Matches t := ⟨rule, r, hrule, h⟩
  exact ⟨Nat.find hex, Nat.find_spec hex,
    fun _ hi r hr hmatches => Nat.find_min hex hi ⟨r, hr, hmatches⟩⟩

-- No part of an expression is without a byte.
def IsProductive : Regex → Prop
  | epsilon => True
  | bytes c => c.ranges ≠ [] ∧ ∀ range ∈ c.ranges, range.1 ≤ range.2
  | cat r s => r.IsProductive ∧ s.IsProductive
  | alt r s => r.IsProductive ∧ s.IsProductive
  | star r => r.IsProductive
  | plus r => r.IsProductive
  | optional r => r.IsProductive

theorem IsProductive.exists_matches (h : r.IsProductive) : ∃ t, Matches r t := by
  induction r with
  | epsilon => exact ⟨[], .epsilon⟩
  | bytes c =>
      obtain ⟨hne, hordered⟩ := h
      obtain ⟨range, hrange⟩ := List.exists_mem_of_ne_nil _ hne
      refine ⟨[range.1], .bytes (List.any_eq_true.mpr ⟨range, hrange, ?_⟩)⟩
      simpa using hordered range hrange
  | cat r s ihr ihs =>
      obtain ⟨t, ht⟩ := ihr h.1
      obtain ⟨u, hu⟩ := ihs h.2
      exact ⟨t ++ u, ht.cat hu⟩
  | alt r s ihr _ =>
      obtain ⟨t, ht⟩ := ihr h.1
      exact ⟨t, .left ht⟩
  | star r _ => exact ⟨[], .stop⟩
  | plus r ih =>
      obtain ⟨t, ht⟩ := ih h
      exact ⟨t ++ [], ht.plus .stop⟩
  | optional r _ => exact ⟨[], .absent⟩

end Regex

end Lookahead
