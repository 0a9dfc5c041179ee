import Lookahead.Grammar.Basic
import Mathlib.Logic.Relation

/-!
Derivations. A sentential form is a string of symbols, and a step replaces one of its
non-terminals by the right-hand side of a rule.
-/

namespace Lookahead.Grammar

inductive Rewrites (g : Grammar) : List Symbol → List Symbol → Prop
  | rule (r : Rule) (hr : r ∈ g.rules) (u v : List Symbol) :
      Rewrites g (u ++ .nonterminal r.lhs :: v) (u ++ r.rhs ++ v)

-- Any number of steps.
def Derives (g : Grammar) : List Symbol → List Symbol → Prop :=
  Relation.ReflTransGen g.Rewrites

-- At least one step.
def DerivesProperly (g : Grammar) : List Symbol → List Symbol → Prop :=
  Relation.TransGen g.Rewrites

variable {g : Grammar} {s t u v w : List Symbol}

theorem Rewrites.in_context (h : g.Rewrites s t) (u v : List Symbol) :
    g.Rewrites (u ++ s ++ v) (u ++ t ++ v) := by
  cases h with
  | rule r hr a b =>
      have hs := Rewrites.rule r hr (u ++ a) (b ++ v)
      simpa only [List.append_assoc, List.cons_append] using hs

namespace Derives

theorem refl (s : List Symbol) : g.Derives s s := Relation.ReflTransGen.refl

theorem trans (h₁ : g.Derives s t) (h₂ : g.Derives t u) : g.Derives s u :=
  Relation.ReflTransGen.trans h₁ h₂

theorem in_context (h : g.Derives s t) (u v : List Symbol) :
    g.Derives (u ++ s ++ v) (u ++ t ++ v) := by
  induction h with
  | refl => exact refl _
  | tail _ hs ih => exact ih.tail (hs.in_context u v)

theorem append (h₁ : g.Derives s t) (h₂ : g.Derives u v) : g.Derives (s ++ u) (t ++ v) := by
  have hl := h₁.in_context [] u
  have hr := h₂.in_context t []
  simp only [List.nil_append, List.append_nil] at hl hr
  exact hl.trans hr

end Derives

theorem DerivesProperly.derives (h : g.DerivesProperly s t) : g.Derives s t :=
  Relation.TransGen.to_reflTransGen h

-- A rule as a derivation.
theorem derives_rule {r : Rule} (hr : r ∈ g.rules) : g.Derives [.nonterminal r.lhs] r.rhs := by
  have h := Rewrites.rule r hr [] []
  simp only [List.nil_append, List.append_nil] at h
  exact Relation.ReflTransGen.single h

theorem derivesProperly_of_rule {r : Rule} (hr : r ∈ g.rules) (h : g.Derives r.rhs s) :
    g.DerivesProperly [.nonterminal r.lhs] s := by
  have hs := Rewrites.rule r hr [] []
  simp only [List.nil_append, List.append_nil] at hs
  exact Relation.TransGen.head' hs h

-- An occurrence of a symbol in two strings put together is in one of them.
theorem occurrence_append {a b : List Symbol} {x : Symbol} (h : a ++ b = u ++ x :: v) :
    (∃ w, a = u ++ x :: w ∧ v = w ++ b) ∨ (∃ w, u = a ++ w ∧ b = w ++ x :: v) := by
  rcases List.append_eq_append_iff.mp h with ⟨w, hu, hb⟩ | ⟨w, ha, hv⟩
  · exact .inr ⟨w, hu, hb⟩
  · cases w with
    | nil =>
        rw [List.append_nil] at ha
        exact .inr ⟨[], by rw [ha, List.append_nil], hv.symm⟩
    | cons y w =>
        obtain ⟨rfl, rfl⟩ := List.cons.inj hv
        exact .inl ⟨w, ha, rfl⟩

-- A step within two strings put together takes place in one of them.
theorem Rewrites.append_cases (h : g.Rewrites (s ++ t) w) :
    (∃ s', g.Rewrites s s' ∧ w = s' ++ t) ∨ (∃ t', g.Rewrites t t' ∧ w = s ++ t') := by
  generalize hx : s ++ t = x at h
  cases h with
  | rule r hr u v =>
      rcases occurrence_append hx with ⟨m, rfl, rfl⟩ | ⟨m, rfl, rfl⟩
      · exact .inl ⟨u ++ r.rhs ++ m, .rule r hr u m, by simp⟩
      · exact .inr ⟨m ++ r.rhs ++ v, .rule r hr m v, by simp⟩

-- What two strings put together derive is put together from what each of them derives.
theorem Derives.append_cases (h : g.Derives (s ++ t) w) :
    ∃ s' t', w = s' ++ t' ∧ g.Derives s s' ∧ g.Derives t t' := by
  induction h with
  | refl => exact ⟨s, t, rfl, refl s, refl t⟩
  | tail _ hs ih =>
      obtain ⟨s', t', rfl, h₁, h₂⟩ := ih
      rcases hs.append_cases with ⟨s'', hl, rfl⟩ | ⟨t'', ht, rfl⟩
      · exact ⟨s'', t', rfl, h₁.tail hl, h₂⟩
      · exact ⟨s', t'', rfl, h₁, h₂.tail ht⟩

-- All that one step may lead to.
def successors (g : Grammar) (s : List Symbol) : List (List Symbol) :=
  (List.range s.length).flatMap fun k =>
    (g.rules.filter fun r => s[k]? = some (.nonterminal r.lhs)).map fun r =>
      s.take k ++ r.rhs ++ s.drop (k + 1)

theorem Rewrites.mem_successors (h : g.Rewrites s t) : t ∈ g.successors s := by
  cases h with
  | rule r hr u v =>
      refine List.mem_flatMap.mpr ⟨u.length, by simp, List.mem_map.mpr ⟨r, ?_, ?_⟩⟩
      · exact List.mem_filter.mpr ⟨hr, by simp⟩
      · simp [List.take_left', List.drop_append]

-- What is true of all symbols of rules stays true of all symbols of sentential forms.
theorem Derives.forall_mem {P : Symbol → Prop} (hP : ∀ r ∈ g.rules, ∀ x ∈ r.rhs, P x)
    (h : g.Derives s t) (hs : ∀ x ∈ s, P x) : ∀ x ∈ t, P x := by
  induction h with
  | refl => exact hs
  | tail _ hr ih =>
      cases hr with
      | rule r hr u v =>
          intro x hx
          simp only [List.mem_append] at hx
          rcases hx with (hu | hx) | hv
          · exact ih x (by simp [hu])
          · exact hP r hr x hx
          · exact ih x (by simp [hv])

-- Strings of terminals do not change.
theorem Derives.eq_of_terminals (hs : ∀ x ∈ s, x.isNonterminal = false) (h : g.Derives s t) :
    t = s := by
  induction h with
  | refl => rfl
  | tail _ hr ih =>
      subst ih
      cases hr with
      | rule r hr u v => simpa [Symbol.isNonterminal] using hs (.nonterminal r.lhs) (by simp)

-- A string in front of which there is a terminal keeps it.
theorem Derives.cons_terminal {x : Symbol} (hx : x.isNonterminal = false)
    (h : g.Derives (x :: s) t) : ∃ t', t = x :: t' ∧ g.Derives s t' := by
  obtain ⟨x', s', rfl, h₁, h₂⟩ := Derives.append_cases (s := [x]) h
  have he := h₁.eq_of_terminals (by simpa using hx)
  subst he
  exact ⟨s', rfl, h₂⟩

-- A proper derivation from one non-terminal begins with one of its rules.
theorem DerivesProperly.rule {i : Nat} (h : g.DerivesProperly [.nonterminal i] t) :
    ∃ r ∈ g.rules, r.lhs = i ∧ g.Derives r.rhs t := by
  obtain ⟨m, hs, ht⟩ := Relation.TransGen.head'_iff.mp h
  generalize hx : [Symbol.nonterminal i] = x at hs
  cases hs with
  | rule r hr u v =>
      rw [eq_comm, List.append_eq_singleton_iff] at hx
      rcases hx with ⟨rfl, hx⟩ | ⟨-, hx⟩
      · obtain ⟨hi, rfl⟩ := List.cons.inj hx
        simp only [List.nil_append, List.append_nil] at ht
        exact ⟨r, hr, Symbol.nonterminal.inj hi, ht⟩
      · simp at hx

-- A non-terminal that derives something else does so by one of its rules.
theorem Derives.rule {i : Nat} (h : g.Derives [.nonterminal i] t) (hne : t ≠ [.nonterminal i]) :
    ∃ r ∈ g.rules, r.lhs = i ∧ g.Derives r.rhs t := by
  rcases Relation.reflTransGen_iff_eq_or_transGen.mp h with he | h
  · exact absurd he hne
  · exact DerivesProperly.rule h

-- A string derives nothing at all if and only if each of its symbols does.
theorem derives_nil_cons {x : Symbol} :
    g.Derives (x :: s) [] ↔ g.Derives [x] [] ∧ g.Derives s [] := by
  constructor
  · intro h
    obtain ⟨a, b, hn, h₁, h₂⟩ := Derives.append_cases (s := [x]) h
    obtain ⟨rfl, rfl⟩ := List.append_eq_nil_iff.mp hn.symm
    exact ⟨h₁, h₂⟩
  · rintro ⟨h₁, h₂⟩
    exact h₁.append h₂

end Lookahead.Grammar
