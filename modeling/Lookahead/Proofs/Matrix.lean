import Lookahead.Matrix
import Mathlib.Data.List.Basic
import Mathlib.Data.List.Pairwise

/-!
A sparse matrix keeps its entries in strict order of positions, so that bisection finds the entry of
a position, and a change of one position leaves all the others alone.
-/

namespace Lookahead

theorem Entry.isBefore_iff {e : Entry} {row col : Int} :
    e.isBefore row col = true ↔ e.row < row ∨ (e.row = row ∧ e.col < col) := by
  simp [isBefore]

theorem Entry.isAt_iff {e : Entry} {row col : Int} :
    e.isAt row col = true ↔ e.row = row ∧ e.col = col := by
  simp [isAt]

namespace Matrix

-- Entries in strict order of rows, and of columns within a row.
def Ascending (entries : List Entry) : Prop :=
  entries.Pairwise fun e e' => e.isBefore e'.row e'.col = true

def IsSorted (m : Matrix) : Prop := Ascending m.entries.toList

-- What is known while bisecting: entries before `low` belong in front of the position, entries from
-- `high` on do not.
structure Bounds (entries : Array Entry) (row col : Int) (low high : Nat) : Prop where
  low_le_high : low ≤ high
  high_le_size : high ≤ entries.size
  before : ∀ i e, i < low → entries[i]? = some e → e.isBefore row col = true
  behind : ∀ i e, high ≤ i → entries[i]? = some e → e.isBefore row col = false

theorem isBefore_mono {entries : Array Entry} (hs : Ascending entries.toList) {i j : Nat}
    {e e' : Entry} (hij : i ≤ j) (hi : entries[i]? = some e) (hj : entries[j]? = some e')
    {row col : Int} (h : e'.isBefore row col = true) : e.isBefore row col = true := by
  rcases Nat.lt_or_eq_of_le hij with hlt | rfl
  · rw [← Array.getElem?_toList] at hi hj
    obtain ⟨hil, rfl⟩ := List.getElem?_eq_some_iff.mp hi
    obtain ⟨hjl, rfl⟩ := List.getElem?_eq_some_iff.mp hj
    have hb := List.pairwise_iff_getElem.mp hs i j hil hjl hlt
    rw [Entry.isBefore_iff] at hb h ⊢
    omega
  · rw [hi] at hj
    cases hj
    exact h

theorem bisect_bounds {entries : Array Entry} (hs : Ascending entries.toList) {row col : Int}
    {low high : Nat} (h : Bounds entries row col low high) :
    Bounds entries row col (bisect entries row col low high) (bisect entries row col low high) := by
  fun_induction bisect entries row col low high with
  | case1 low high hlt middle e he hb ih =>
      apply ih
      refine ⟨by omega, h.high_le_size, fun i e' hi he' => ?_, h.behind⟩
      exact isBefore_mono hs (Nat.le_of_lt_succ hi) he' he hb
  | case2 low high hlt middle e he hb ih =>
      apply ih
      have hsize := h.high_le_size
      refine ⟨by omega, by omega, h.before, fun i e' hi he' => ?_⟩
      by_contra hne
      rw [Bool.not_eq_false] at hne
      exact hb (isBefore_mono hs hi he he' hne)
  | case3 low high hlt middle hn =>
      have hsize := h.high_le_size
      rw [Array.getElem?_eq_none_iff] at hn
      omega
  | case4 low high hlt =>
      have he : low = high := Nat.le_antisymm h.low_le_high (Nat.le_of_not_lt hlt)
      subst he
      exact h

-- The search divides the entries into those in front of a position and the others.
theorem search_split {m : Matrix} (hs : m.IsSorted) (row col : Int) :
    ∃ front back, m.entries.toList = front ++ back ∧ front.length = m.search row col ∧
      (∀ e ∈ front, e.isBefore row col = true) ∧ (∀ e ∈ back, e.isBefore row col = false) := by
  have h : Bounds m.entries row col (m.search row col) (m.search row col) := by
    apply bisect_bounds hs
    refine ⟨Nat.zero_le _, Nat.le_refl _, fun i e hi => absurd hi (Nat.not_lt_zero i), ?_⟩
    intro i e hi he
    rw [Array.getElem?_eq_none hi] at he
    cases he
  have hsize := h.high_le_size
  refine ⟨m.entries.toList.take (m.search row col), m.entries.toList.drop (m.search row col),
    (List.take_append_drop _ _).symm, ?_, ?_, ?_⟩
  · rw [List.length_take, Array.length_toList]
    omega
  · intro e he
    obtain ⟨i, hi, rfl⟩ := List.mem_take_iff_getElem.mp he
    apply h.before i _ (by omega)
    rw [← Array.getElem?_toList]
    exact List.getElem?_eq_getElem _
  · intro e he
    obtain ⟨i, hi, rfl⟩ := List.mem_drop_iff_getElem.mp he
    apply h.behind (m.search row col + i) _ (Nat.le_add_right _ _)
    rw [← Array.getElem?_toList]
    exact List.getElem?_eq_getElem _

theorem not_isAt_of_isBefore {e : Entry} {row col : Int} (h : e.isBefore row col = true) :
    e.isAt row col = false := by
  rw [Entry.isBefore_iff] at h
  simp only [Entry.isAt, Bool.and_eq_false_iff, decide_eq_false_iff_not]
  omega

theorem find?_front {front : List Entry} {row col : Int}
    (h : ∀ e ∈ front, e.isBefore row col = true) :
    front.find? (·.isAt row col) = none := by
  rw [List.find?_eq_none]
  intro e he
  simp [not_isAt_of_isBefore (h e he)]

-- Only the first entry that is not in front of a position can be the one of the position.
theorem find?_back {back : List Entry} {row col : Int} (hs : Ascending back)
    (h : ∀ e ∈ back, e.isBefore row col = false) :
    back.find? (·.isAt row col) = back.head?.filter (·.isAt row col) := by
  cases back with
  | nil => rfl
  | cons e rest =>
      cases hat : e.isAt row col with
      | true => simp [hat, Option.filter_some]
      | false =>
          simp only [List.find?_cons, hat, List.head?_cons, Option.filter_some]
          rw [if_neg Bool.false_ne_true, List.find?_eq_none]
          intro e' he'
          have hlt := (List.pairwise_cons.mp hs).1 e' he'
          have hb := h e (by simp)
          rw [Entry.isBefore_iff] at hlt
          rw [← Bool.not_eq_true, Entry.isBefore_iff] at hb
          rw [← Bool.not_eq_true, Entry.isAt_iff] at hat
          rw [Entry.isAt_iff]
          omega

-- Bisection finds what looking at one entry after the other would find.
theorem entry?_eq_find? {m : Matrix} (hs : m.IsSorted) (row col : Int) :
    m.entry? row col = m.entries.toList.find? (·.isAt row col) := by
  obtain ⟨front, back, he, hl, hf, hb⟩ := search_split hs row col
  have hsb : Ascending back := by
    unfold IsSorted at hs
    rw [he] at hs
    exact (List.pairwise_append.mp hs).2.1
  rw [he, List.find?_append, find?_front hf, Option.none_or, find?_back hsb hb]
  unfold entry?
  rw [← Array.getElem?_toList, he, ← hl, List.getElem?_append_right (Nat.le_refl _), Nat.sub_self,
    ← List.head?_eq_getElem?]
  cases back.head? with
  | none => rfl
  | some e => simp [Option.filter_some]

theorem insertIdx_append_length {α : Type} (front back : List α) (x : α) :
    (front ++ back).insertIdx front.length x = front ++ x :: back := by
  induction front with
  | nil => rfl
  | cons y front ih => rw [List.cons_append, List.length_cons, List.insertIdx_succ_cons, ih]; rfl

-- Entries in front of a position and entries behind it, in order.
structure Around (row col : Int) (front back : List Entry) : Prop where
  ascendingFront : Ascending front
  ascendingBack : Ascending back
  before : ∀ e ∈ front, e.isBefore row col = true
  behind : ∀ e ∈ back, row < e.row ∨ (row = e.row ∧ col < e.col)

theorem around_of_some {m : Matrix} (hs : m.IsSorted) {row col : Int} {e : Entry}
    (h : m.entry? row col = some e) :
    (e.row = row ∧ e.col = col) ∧ ∃ front back, m.entries.toList = front ++ e :: back ∧
      front.length = m.search row col ∧ Around row col front back := by
  obtain ⟨front, back, he, hl, hf, hb⟩ := search_split hs row col
  rw [entry?_eq_find? hs, he, List.find?_append, find?_front hf, Option.none_or] at h
  unfold IsSorted at hs
  rw [he] at hs
  obtain ⟨hsf, hsb, -⟩ := List.pairwise_append.mp hs
  rw [find?_back hsb hb] at h
  obtain ⟨hhead, hpos⟩ := Option.filter_eq_some_iff.mp h
  obtain ⟨rest, rfl⟩ := List.head?_eq_some_iff.mp hhead
  obtain ⟨hrest, hsr⟩ := List.pairwise_cons.mp hsb
  rw [Entry.isAt_iff] at hpos
  refine ⟨hpos, front, rest, he, hl, hsf, hsr, hf, fun e' he' => ?_⟩
  have hlt := Entry.isBefore_iff.mp (hrest e' he')
  omega

theorem around_of_none {m : Matrix} (hs : m.IsSorted) {row col : Int}
    (h : m.entry? row col = none) :
    ∃ front back, m.entries.toList = front ++ back ∧ front.length = m.search row col ∧
      Around row col front back := by
  obtain ⟨front, back, he, hl, hf, hb⟩ := search_split hs row col
  rw [entry?_eq_find? hs, he, List.find?_append, find?_front hf, Option.none_or] at h
  unfold IsSorted at hs
  rw [he] at hs
  obtain ⟨hsf, hsb, -⟩ := List.pairwise_append.mp hs
  refine ⟨front, back, he, hl, hsf, hsb, hf, fun e' he' => ?_⟩
  have hb' := hb e' he'
  have hne := List.find?_eq_none.mp h e' he'
  rw [Entry.isAt_iff] at hne
  rw [← Bool.not_eq_true, Entry.isBefore_iff] at hb'
  omega

-- A matrix with an entry `x` between those in front of its position and those behind it.
theorem middle_spec {m : Matrix} {front back : List Entry} {x : Entry} {row col : Int}
    (hlist : m.entries.toList = front ++ x :: back) (hx : x.row = row ∧ x.col = col)
    (h : Around row col front back) :
    m.IsSorted ∧ ∀ row' col', m.entry? row' col' =
      if row' = row ∧ col' = col then some x else (front ++ back).find? (·.isAt row' col') := by
  have hs : m.IsSorted := by
    unfold IsSorted
    rw [hlist]
    refine List.pairwise_append.mpr ⟨h.ascendingFront,
      List.pairwise_cons.mpr ⟨fun e he => ?_, h.ascendingBack⟩, ?_⟩
    · rw [Entry.isBefore_iff, hx.1, hx.2]
      exact h.behind e he
    · intro e he e' he'
      have hbefore := h.before e he
      rw [Entry.isBefore_iff] at hbefore ⊢
      rcases List.mem_cons.mp he' with rfl | he'
      · omega
      · have hbehind := h.behind e' he'
        omega
  refine ⟨hs, fun row' col' => ?_⟩
  rw [entry?_eq_find? hs, hlist, List.find?_append, List.find?_append]
  split
  · rename_i hpos
    have hat : x.isAt row col = true := Entry.isAt_iff.mpr hx
    rw [hpos.1, hpos.2, find?_front h.before, Option.none_or, List.find?_cons, hat]
  · rename_i hpos
    rw [List.find?_cons_of_neg]
    rw [Entry.isAt_iff, hx.1, hx.2]
    exact fun he => hpos ⟨he.1.symm, he.2.symm⟩

-- A change of one position: the matrix stays sorted, and all other positions keep their entries.
theorem update_eq_ok {m : Matrix} (hs : m.IsSorted) {row col : Int} (hrow : 0 ≤ row ∧ row < m.rows)
    (hcol : 0 ≤ col ∧ col < m.cols) (value : Int32) {change : Entry → Entry}
    (hchange : ∀ e, (change e).row = e.row ∧ (change e).col = e.col) :
    ∃ m', m.update row col value change = .ok m' ∧ m'.IsSorted ∧
      m'.rows = m.rows ∧ m'.cols = m.cols ∧ m'.null = m.null ∧
      ∀ row' col', m'.entry? row' col' =
        if row' = row ∧ col' = col then
          some ((m.entry? row col).elim ⟨row, col, value, m.null⟩ change)
        else m.entry? row' col' := by
  have hin : ¬(row < 0 || m.rows ≤ row || col < 0 || m.cols ≤ col) = true := by
    simp only [Bool.or_eq_true, decide_eq_true_eq]
    omega
  simp only [update]
  rw [if_neg hin]
  cases hat : m.entry? row col with
  | some e =>
      obtain ⟨hpos, front, back, he, hl, haround⟩ := around_of_some hs hat
      have hlist : (m.entries.setIfInBounds (m.search row col) (change e)).toList =
          front ++ change e :: back := by
        rw [Array.toList_setIfInBounds, he, ← hl, List.set_append_right _ _ (Nat.le_refl _),
          Nat.sub_self, List.set_cons_zero]
      have hx : (change e).row = row ∧ (change e).col = col := by
        rw [(hchange e).1, (hchange e).2]
        exact hpos
      let m' : Matrix := { m with entries := m.entries.setIfInBounds (m.search row col) (change e) }
      obtain ⟨hs', hm'⟩ := middle_spec (m := m') hlist hx haround
      obtain ⟨-, hm⟩ := middle_spec he hpos haround
      refine ⟨m', rfl, hs', rfl, rfl, rfl, fun row' col' => ?_⟩
      rw [hm', hm]
      split <;> rfl
  | none =>
      obtain ⟨front, back, he, hl, haround⟩ := around_of_none hs hat
      have hlist : (m.entries.insertIdxIfInBounds (m.search row col)
          ⟨row, col, value, m.null⟩).toList = front ++ ⟨row, col, value, m.null⟩ :: back := by
        have hm : m.entries = (front ++ back).toArray := by rw [← he, Array.toArray_toList]
        rw [← hl, hm, List.insertIdxIfInBounds_toArray, insertIdx_append_length]
      let m' : Matrix := { m with
        entries := m.entries.insertIdxIfInBounds (m.search row col) ⟨row, col, value, m.null⟩ }
      obtain ⟨hs', hm'⟩ := middle_spec (m := m') hlist ⟨rfl, rfl⟩ haround
      refine ⟨m', rfl, hs', rfl, rfl, rfl, fun row' col' => ?_⟩
      rw [hm', entry?_eq_find? hs, he]
      rfl

theorem fill_position (null value : Int32) (e : Entry) :
    (fill null value e).row = e.row ∧ (fill null value e).col = e.col := by
  unfold fill
  split
  · exact ⟨rfl, rfl⟩
  · split <;> exact ⟨rfl, rfl⟩

end Matrix

end Lookahead
