import Lookahead.Proofs.Matrix
import Mathlib.Data.List.InsertIdx

/-!
Rows of sparse matrices. The entries of a row stand behind one another, in strict order of columns.
-/

namespace Lookahead.Matrix

-- All entries are at positions of the matrix.
def IsInside (m : Matrix) : Prop :=
  ∀ e ∈ m.entries.toList, (0 ≤ e.row ∧ e.row < m.rows) ∧ 0 ≤ e.col ∧ e.col < m.cols

variable {m m' : Matrix} {i row col : Int} {e : Entry}

theorem mem_of_entry_eq_some (h : m.entry? row col = some e) :
    e ∈ m.entries.toList ∧ e.row = row ∧ e.col = col := by
  unfold entry? at h
  split at h
  · rename_i e' hget
    split at h
    · rename_i hat
      cases h
      exact ⟨List.mem_of_getElem? (Array.getElem?_toList ▸ hget), Entry.isAt_iff.mp hat⟩
    · cases h
  · cases h

theorem exists_entry_eq_some (hs : m.IsSorted) (he : e ∈ m.entries.toList) :
    ∃ e', m.entry? e.row e.col = some e' := by
  rw [entry?_eq_find? hs, ← Option.isSome_iff_exists, List.find?_isSome]
  exact ⟨e, he, Entry.isAt_iff.mpr ⟨rfl, rfl⟩⟩

theorem IsInside.update (h : m.IsInside) {value : Int32} {change : Entry → Entry}
    (hchange : ∀ e, (change e).row = e.row ∧ (change e).col = e.col)
    (hm : m.update row col value change = .ok m') : m'.IsInside := by
  simp only [Matrix.update] at hm
  split at hm
  · cases hm
  · rename_i hin
    simp only [Bool.or_eq_true, decide_eq_true_eq, not_or, Int.not_lt, Int.not_le] at hin
    split at hm
    · rename_i e he
      have hold := h e (mem_of_entry_eq_some he).1
      cases hm
      intro x hx
      rw [Array.toList_setIfInBounds] at hx
      rcases List.mem_or_eq_of_mem_set hx with hx | rfl
      · exact h x hx
      · rw [(hchange e).1, (hchange e).2]
        exact hold
    · cases hm
      intro x hx
      have hm : m.entries = m.entries.toList.toArray := Array.toArray_toList.symm
      rw [hm, List.insertIdxIfInBounds_toArray] at hx
      rcases List.eq_or_mem_of_mem_insertIdx hx with rfl | hx
      · exact ⟨⟨hin.1.1.1, hin.1.1.2⟩, hin.1.2, hin.2⟩
      · exact h x hx

-- Entries of one row that no entry of another row stands in front of.
theorem mem_takeWhile_of_ascending {entries : List Entry} (hs : Ascending entries)
    (hrow : ∀ e ∈ entries, i ≤ e.row) (he : e ∈ entries) (hi : e.row = i) :
    e ∈ entries.takeWhile (·.row = i) := by
  induction entries with
  | nil => cases he
  | cons x rest ih =>
      obtain ⟨hx, hrest⟩ := List.pairwise_cons.mp hs
      have hfirst : x.row = i := by
        rcases List.mem_cons.mp he with rfl | he
        · exact hi
        · have hbefore := Entry.isBefore_iff.mp (hx e he)
          have hle := hrow x List.mem_cons_self
          omega
      rw [List.takeWhile_cons_of_pos (by simpa using hfirst)]
      rcases List.mem_cons.mp he with rfl | he
      · exact List.mem_cons_self
      · exact List.mem_cons_of_mem x (ih hrest (fun e he => hrow e (List.mem_cons_of_mem x he)) he)

theorem mem_row_iff (hs : m.IsSorted) (hin : m.IsInside) :
    e ∈ m.row i ↔ e ∈ m.entries.toList ∧ e.row = i := by
  obtain ⟨front, back, hlist, hl, hfront, hback⟩ := search_split hs i 0
  have hdrop : m.entries.toList.drop (m.search i 0) = back := by rw [hlist, ← hl, List.drop_left]
  rw [Matrix.row, hdrop]
  constructor
  · intro he
    exact ⟨hlist ▸ List.mem_append_right front (List.takeWhile_subset _ he),
      by simpa using List.all_eq_true.mp List.all_takeWhile e he⟩
  · rintro ⟨he, hi⟩
    have hcol := (hin e he).2.1
    rw [hlist] at he
    unfold IsSorted at hs
    rw [hlist] at hs
    refine mem_takeWhile_of_ascending (List.pairwise_append.mp hs).2.1 (fun x hx => ?_) ?_ hi
    · have hb := hback x hx
      rw [← Bool.not_eq_true, Entry.isBefore_iff] at hb
      omega
    · refine (List.mem_append.mp he).resolve_left fun he => ?_
      have hbefore := Entry.isBefore_iff.mp (hfront e he)
      omega

-- The columns of a row are in strict order.
theorem ascending_row (hs : m.IsSorted) (hin : m.IsInside) :
    ((m.row i).map fun e => e.col.toNat).Pairwise (· < ·) := by
  have hsub : (m.row i).Sublist m.entries.toList :=
    (List.takeWhile_sublist _).trans (List.drop_sublist _ _)
  rw [List.pairwise_map]
  refine (List.Pairwise.sublist hsub hs).imp_of_mem fun {e e'} he he' hlt => ?_
  obtain ⟨hmem, hi⟩ := (mem_row_iff hs hin).mp he
  obtain ⟨-, hi'⟩ := (mem_row_iff hs hin).mp he'
  have hcol := (hin e hmem).2.1
  rw [Entry.isBefore_iff] at hlt
  omega

end Lookahead.Matrix
