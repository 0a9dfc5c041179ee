/-!
Sorting by insertion. An item is put behind all items that may come before it, so that items that
may come in either order stay as they are.
-/

namespace Lookahead

variable {α : Type} {comesFirst : α → α → Bool} {x y : α} {l : List α}

def insertBy (comesFirst : α → α → Bool) (x : α) : List α → List α
  | [] => [x]
  | y :: rest => if comesFirst y x then y :: insertBy comesFirst x rest else x :: y :: rest

def sortBy (comesFirst : α → α → Bool) (l : List α) : List α :=
  l.foldl (fun sorted x => insertBy comesFirst x sorted) []

theorem mem_insertBy : y ∈ insertBy comesFirst x l ↔ y = x ∨ y ∈ l := by
  induction l with
  | nil => simp [insertBy]
  | cons z rest ih =>
      rw [insertBy]
      split
      · rw [List.mem_cons, ih, List.mem_cons]
        exact or_left_comm
      · rw [List.mem_cons]

theorem mem_sortBy : y ∈ sortBy comesFirst l ↔ y ∈ l := by
  suffices hfrom : ∀ sorted : List α,
      y ∈ l.foldl (fun sorted x => insertBy comesFirst x sorted) sorted ↔ y ∈ sorted ∨ y ∈ l by
    exact (hfrom []).trans (or_iff_right List.not_mem_nil)
  induction l with
  | nil => simp
  | cons x rest ih =>
      intro sorted
      rw [List.foldl_cons, ih, mem_insertBy, List.mem_cons, or_assoc, or_left_comm]

-- What holds of the list is left to hold of the sorted one.
theorem pairwise_insertBy {r : α → α → Prop} (htrans : ∀ a b c, r a b → r b c → r a c)
    (hfirst : ∀ y, comesFirst y x = true → r y x) (hlast : ∀ y, comesFirst y x = false → r x y)
    (h : l.Pairwise r) : (insertBy comesFirst x l).Pairwise r := by
  induction l with
  | nil => exact List.pairwise_singleton r x
  | cons y rest ih =>
      obtain ⟨hy, hrest⟩ := List.pairwise_cons.mp h
      rw [insertBy]
      split
      · next hless =>
        refine List.pairwise_cons.mpr ⟨fun z hz => ?_, ih hrest⟩
        rcases mem_insertBy.mp hz with rfl | hz
        · exact hfirst y hless
        · exact hy z hz
      · next hless =>
        have hxy := hlast y (Bool.eq_false_iff.mpr hless)
        refine List.pairwise_cons.mpr ⟨fun z hz => ?_, h⟩
        rcases List.mem_cons.mp hz with rfl | hz
        · exact hxy
        · exact htrans x y z hxy (hy z hz)

theorem pairwise_sortBy {r : α → α → Prop} (htrans : ∀ a b c, r a b → r b c → r a c)
    (hfirst : ∀ x y, comesFirst y x = true → r y x)
    (hlast : ∀ x y, comesFirst y x = false → r x y) (l : List α) :
    (sortBy comesFirst l).Pairwise r := by
  unfold sortBy
  suffices hfrom : ∀ sorted : List α, sorted.Pairwise r →
      (l.foldl (fun sorted x => insertBy comesFirst x sorted) sorted).Pairwise r from
    hfrom [] .nil
  induction l with
  | nil => exact fun sorted h => h
  | cons x rest ih =>
      exact fun sorted h => ih _ (pairwise_insertBy htrans (hfirst x) (hlast x) h)

end Lookahead
