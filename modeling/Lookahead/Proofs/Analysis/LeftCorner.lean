import Lookahead.Proofs.Analysis.First

/-!
Left corners are exact: a non-terminal is a left corner of another one if and only if the other one
derives, in at least one step, a string that begins with it. Without left recursion, the number of
left corners goes down from every non-terminal to its left corners.
-/

namespace Lookahead

namespace Grammar

-- One rule leads from `i` to `j` through symbols that may vanish.
def LeftCorner (g : Grammar) (i j : Nat) : Prop :=
  ∃ r ∈ g.rules, r.lhs = i ∧ ∃ u v, r.rhs = u ++ .nonterminal j :: v ∧ g.Derives u []

-- Some non-terminal derives a string that begins with itself.
def IsLeftRecursive (g : Grammar) : Prop :=
  ∃ i rest, g.DerivesProperly [.nonterminal i] (.nonterminal i :: rest)

variable {g : Grammar} {i j : Nat}

theorem LeftCorner.derivesProperly (h : g.LeftCorner i j) :
    ∃ rest, g.DerivesProperly [.nonterminal i] (.nonterminal j :: rest) := by
  obtain ⟨r, hr, rfl, u, v, he, hu⟩ := h
  refine ⟨v, derivesProperly_of_rule hr ?_⟩
  rw [he]
  simpa using hu.append (.refl (.nonterminal j :: v))

-- What may come to stand in front goes back to what may stand in front at the beginning.
theorem front_of_derives {s t : List Symbol} (h : g.Derives s t) :
    ∀ u j v, t = u ++ .nonterminal j :: v → g.Derives u [] →
      ∃ a i b, s = a ++ .nonterminal i :: b ∧ g.Derives a [] ∧
        Relation.ReflTransGen g.LeftCorner i j := by
  induction h with
  | refl => exact fun u j v he hu => ⟨u, j, v, he, hu, .refl⟩
  | tail _ hs ih =>
      cases hs with
      | rule r hr a b =>
          intro u j v he hu
          rcases occurrence_append he with ⟨w, hw, rfl⟩ | ⟨w, rfl, rfl⟩
          · rcases occurrence_append hw with ⟨w', rfl, rfl⟩ | ⟨w', rfl, hrhs⟩
            · -- in front of the replaced non-terminal
              exact ih u j (w' ++ .nonterminal r.lhs :: b) (by simp) hu
            · -- within the right-hand side
              obtain ⟨m₁, m₂, hnil, h₁, h₂⟩ := hu.append_cases
              obtain ⟨rfl, rfl⟩ := List.append_eq_nil_iff.mp hnil.symm
              obtain ⟨a', i, b', hs, ha, hi⟩ := ih a r.lhs b rfl h₁
              exact ⟨a', i, b', hs, ha, hi.tail ⟨r, hr, rfl, w', w, hrhs, h₂⟩⟩
          · -- behind the replaced non-terminal
            exact ih (a ++ .nonterminal r.lhs :: w) j v (by simp)
              (Relation.ReflTransGen.head (.rule r hr a w) hu)

theorem transGen_leftCorner_iff :
    Relation.TransGen g.LeftCorner i j ↔
      ∃ rest, g.DerivesProperly [.nonterminal i] (.nonterminal j :: rest) := by
  constructor
  · intro h
    induction h with
    | single h => exact h.derivesProperly
    | tail _ h ih =>
        obtain ⟨rest, hd⟩ := ih
        obtain ⟨more, hm⟩ := h.derivesProperly
        have ht := hm.derives.append (.refl rest)
        exact ⟨more ++ rest, hd.trans_left ht⟩
  · rintro ⟨rest, h⟩
    obtain ⟨r, hr, rfl, hd⟩ := h.rule
    obtain ⟨u, k, v, he, hu, hk⟩ := front_of_derives hd [] j rest rfl (.refl [])
    exact .head' ⟨r, hr, rfl, u, v, he, hu⟩ hk

theorem WellScoped.lt_of_leftCorner (hg : g.WellScoped) (h : Relation.TransGen g.LeftCorner i j) :
    j < g.nonterminals.length := by
  obtain ⟨k, -, r, hr, -, u, v, he, -⟩ := Relation.TransGen.tail'_iff.mp h
  exact hg.rhs_declared r hr (.nonterminal j) (by simp [he])

end Grammar

namespace Analysis

variable {g : Grammar} {marks : List Bool} {corners : List IndexSet} {k : Nat}

-- The sets after the step for one non-terminal that may come to stand in front.
def cornerAt (lhs i : Nat) (corners : List IndexSet) : List IndexSet :=
  let more := corners.modify lhs fun s => s.insert i
  more.modify lhs fun s => s.union (setOf more i)

theorem cornerStep_cons_nonterminal (lhs i : Nat) (rest : List Symbol) :
    cornerStep marks lhs (.nonterminal i :: rest) corners =
      if marks.getD i false then cornerStep marks lhs rest (cornerAt lhs i corners)
      else cornerAt lhs i corners := rfl

theorem cornerAt_grows (lhs i : Nat) (corners : List IndexSet) :
    Grows corners (cornerAt lhs i corners) :=
  (grows_modify_insert _ _ _).trans (grows_modify_union _ _ _)

theorem cornerStep_grows (lhs : Nat) (rest : List Symbol) (corners : List IndexSet) :
    Grows corners (cornerStep marks lhs rest corners) := by
  induction rest generalizing corners with
  | nil => exact Grows.refl corners
  | cons x rest ih =>
      cases x with
      | nonterminal i =>
          rw [cornerStep_cons_nonterminal]
          split
          · exact (cornerAt_grows lhs i corners).trans (ih _)
          · exact cornerAt_grows lhs i corners
      | terminal i => exact Grows.refl corners
      | endOfInput => exact Grows.refl corners

theorem mem_cornerAt {lhs i : Nat} (hlhs : lhs < corners.length)
    (h : k = i ∨ k ∈ setOf corners i) : k ∈ setOf (cornerAt lhs i corners) lhs := by
  rcases h with rfl | h
  · apply mem_setOf_of_grows (grows_modify_union _ _ _)
    exact mem_setOf_modify_insert.mpr (.inr ⟨rfl, hlhs, rfl⟩)
  · refine mem_setOf_modify_union.mpr (.inr ⟨rfl, by simpa using hlhs, ?_⟩)
    exact mem_setOf_of_grows (grows_modify_insert _ _ _) h

-- The step for a right-hand side reaches every non-terminal behind marked ones.
theorem mem_cornerStep {lhs i : Nat} (u : List Symbol) {v : List Symbol}
    (hlhs : lhs < corners.length) (hu : u.all (isNullable marks) = true)
    (h : k = i ∨ k ∈ setOf corners i) :
    k ∈ setOf (cornerStep marks lhs (u ++ .nonterminal i :: v) corners) lhs := by
  induction u generalizing corners with
  | nil =>
      rw [List.nil_append, cornerStep_cons_nonterminal]
      split
      · exact mem_setOf_of_grows (cornerStep_grows _ _ _) (mem_cornerAt hlhs h)
      · exact mem_cornerAt hlhs h
  | cons x u ih =>
      simp only [List.all_cons, Bool.and_eq_true] at hu
      cases x with
      | nonterminal j =>
          have hgrow := cornerAt_grows lhs j corners
          have hj : marks.getD j false = true := hu.1
          rw [List.cons_append, cornerStep_cons_nonterminal, if_pos hj]
          exact ih (hgrow.length_eq ▸ hlhs) hu.2 (h.imp_right (mem_setOf_of_grows hgrow))
      | terminal j => simp [isNullable] at hu
      | endOfInput => simp [isNullable] at hu

theorem cornerAt_sound (hc : SetsSound (Relation.TransGen g.LeftCorner) corners) {lhs i : Nat}
    (h : g.LeftCorner lhs i) :
    SetsSound (Relation.TransGen g.LeftCorner) (cornerAt lhs i corners) := by
  have hmore : SetsSound (Relation.TransGen g.LeftCorner)
      (corners.modify lhs fun s => s.insert i) := by
    intro j k hk
    rcases mem_setOf_modify_insert.mp hk with hk | ⟨rfl, -, rfl⟩
    · exact hc j k hk
    · exact .single h
  intro j k hk
  rcases mem_setOf_modify_union.mp hk with hk | ⟨rfl, -, hk⟩
  · exact hmore j k hk
  · exact .head h (hmore i k hk)

theorem cornerStep_sound (hc : SetsSound (Relation.TransGen g.LeftCorner) corners)
    (hm : MarksSound g marks) {r : Rule} (hr : r ∈ g.rules) {u v : List Symbol}
    (he : r.rhs = u ++ v) (hu : g.Derives u []) :
    SetsSound (Relation.TransGen g.LeftCorner) (cornerStep marks r.lhs v corners) := by
  induction v generalizing u corners with
  | nil => exact hc
  | cons x v ih =>
      cases x with
      | nonterminal i =>
          have hat := cornerAt_sound hc ⟨r, hr, rfl, u, v, he, hu⟩
          rw [cornerStep_cons_nonterminal]
          split
          · rename_i hi
            exact ih hat (u := u ++ [.nonterminal i]) (by simp [he]) (hu.append (hm i hi))
          · exact hat
      | terminal i => exact hc
      | endOfInput => exact hc

theorem analyse_corners (hg : g.WellScoped) :
    g.analyse.corners.length = g.nonterminals.length ∧
      SetsSound (Relation.TransGen g.LeftCorner) g.analyse.corners ∧
      ∀ r ∈ g.rules, cornerStep g.analyse.nullable r.lhs r.rhs g.analyse.corners =
        g.analyse.corners := by
  apply fixedPoint_sets
    (fun corners (r : Rule) => cornerStep g.analyse.nullable r.lhs r.rhs corners)
    g.nonterminals.length
  · exact fun i j h => hg.lt_of_leftCorner h
  · exact fun corners r => cornerStep_grows r.lhs r.rhs corners
  · exact fun corners r hr hc => cornerStep_sound hc (analyse_nullable g).2.1 hr
      (List.nil_append r.rhs).symm (.refl [])
  · simp
  · intro i j h
    simp at h

end Analysis

namespace Grammar.WellScoped

open Analysis

variable {g : Grammar} {i j : Nat}

theorem corners_closed (hg : g.WellScoped) (h : g.LeftCorner i j) {k : Nat}
    (hk : k = j ∨ k ∈ setOf g.analyse.corners j) : k ∈ setOf g.analyse.corners i := by
  obtain ⟨r, hr, rfl, u, v, he, hu⟩ := h
  obtain ⟨hlen, -, hstep⟩ := analyse_corners hg
  rw [← hstep r hr, he]
  exact mem_cornerStep u (hlen ▸ hg.lhs_lt r hr) (hg.all_isNullable_iff.mpr hu) hk

theorem mem_corners_iff (hg : g.WellScoped) :
    j ∈ setOf g.analyse.corners i ↔ Relation.TransGen g.LeftCorner i j := by
  constructor
  · exact (analyse_corners hg).2.1 i j
  · intro h
    induction h using Relation.TransGen.head_induction_on with
    | single h => exact hg.corners_closed h (.inl rfl)
    | head h _ ih => exact hg.corners_closed h (.inr ih)

-- The non-terminals found to be left-recursive derive strings that begin with themselves.
theorem mem_leftRecursive_iff (hg : g.WellScoped) :
    .nonterminal i ∈ g.analyse.leftRecursive ↔
      ∃ rest, g.DerivesProperly [.nonterminal i] (.nonterminal i :: rest) := by
  have hlt : Relation.TransGen g.LeftCorner i i → i < g.nonterminals.length :=
    hg.lt_of_leftCorner
  simp only [leftRecursive, List.mem_map, List.mem_filter, List.mem_range, IndexSet.contains_iff,
    hg.mem_corners_iff, Symbol.nonterminal.injEq, ← transGen_leftCorner_iff]
  constructor
  · rintro ⟨j, ⟨-, hj⟩, rfl⟩
    exact hj
  · exact fun h => ⟨i, ⟨hlt h, h⟩, rfl⟩

theorem leftRecursive_ne_nil_iff (hg : g.WellScoped) :
    g.analyse.leftRecursive ≠ [] ↔ g.IsLeftRecursive := by
  constructor
  · intro h
    obtain ⟨x, hx⟩ := List.exists_mem_of_ne_nil _ h
    obtain ⟨i, -, rfl⟩ := List.mem_map.mp hx
    exact ⟨i, hg.mem_leftRecursive_iff.mp hx⟩
  · rintro ⟨i, h⟩
    exact List.ne_nil_of_mem (hg.mem_leftRecursive_iff.mpr h)

end Grammar.WellScoped

-- The number of left corners of a non-terminal.
def Grammar.rank (g : Grammar) (i : Nat) : Nat := (Analysis.setOf g.analyse.corners i).size

namespace Grammar.WellScoped

variable {g : Grammar} {i j : Nat}

theorem rank_le (hg : g.WellScoped) (i : Nat) : g.rank i ≤ g.nonterminals.length :=
  IndexSet.size_le fun _ hk => hg.lt_of_leftCorner (hg.mem_corners_iff.mp hk)

theorem rank_lt (hg : g.WellScoped) (hl : ¬g.IsLeftRecursive) (h : g.LeftCorner i j) :
    g.rank j < g.rank i := by
  apply IndexSet.size_strictMono
  apply lt_of_le_not_ge
  · exact fun k hk => hg.corners_closed h (.inr hk)
  · intro hle
    have hj := hg.mem_corners_iff.mp (hle j (hg.corners_closed h (.inl rfl)))
    exact hl ⟨j, transGen_leftCorner_iff.mp hj⟩

end Grammar.WellScoped

end Lookahead
