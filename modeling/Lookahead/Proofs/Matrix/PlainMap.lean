import Lookahead.Proofs.Matrix.Row
import Mathlib.Data.Set.Card

/-!
A sparse matrix is a plain map from positions to pairs of values. Whatever is stored, positions
that are set are told apart from those that are not, even if the null value is stored in them.
-/

namespace Lookahead.Matrix

-- A call that stores a value at a position.
inductive Write where
  | set (row col : Int) (value : Int32)
  | add (row col : Int) (value : Int32)
deriving DecidableEq, Repr

namespace Write

def row : Write → Int
  | set row _ _ => row
  | add row _ _ => row

def col : Write → Int
  | set _ col _ => col
  | add _ col _ => col

def IsWithin (w : Write) (rows cols : Int) : Prop :=
  (0 ≤ w.row ∧ w.row < rows) ∧ 0 ≤ w.col ∧ w.col < cols

instance (w : Write) (rows cols : Int) : Decidable (w.IsWithin rows cols) :=
  inferInstanceAs (Decidable ((0 ≤ w.row ∧ w.row < rows) ∧ 0 ≤ w.col ∧ w.col < cols))

-- The pair at the position of a call afterwards, from what was there before.
def pair (null : Int32) : Write → Option (Int32 × Int32) → Int32 × Int32
  | set _ _ value, _ => (value, null)
  | add _ _ value, none => (value, null)
  | add _ _ value, some (first, second) =>
    if first = null then (value, second)
    else if second = null then (first, value)
    else (first, second)

end Write

def write (m : Matrix) : Write → Except OutOfRange Matrix
  | .set row col value => m.set row col value
  | .add row col value => m.add row col value

-- The matrix after a call, which stays as it is if the call fails.
def perform (m : Matrix) (w : Write) : Matrix :=
  match m.write w with
  | .ok m' => m'
  | .error _ => m

-- A new matrix after some calls.
def after (rows cols : Int) (null : Int32) (writes : List Write) : Matrix :=
  writes.foldl perform (empty rows cols null)

-- Positions and the pairs that are stored at them.
abbrev PlainMap := Int × Int → Option (Int32 × Int32)

namespace PlainMap

def write (rows cols : Int) (null : Int32) (f : PlainMap) (w : Write) : PlainMap :=
  if w.IsWithin rows cols then
    Function.update f (w.row, w.col) (some (w.pair null (f (w.row, w.col))))
  else f

def after (rows cols : Int) (null : Int32) (writes : List Write) : PlainMap :=
  writes.foldl (write rows cols null) fun _ => none

end PlainMap

-- What a matrix and a plain map have in common.
structure Refines (m : Matrix) (rows cols : Int) (null : Int32) (f : PlainMap) : Prop where
  rows_eq : m.rows = rows
  cols_eq : m.cols = cols
  null_eq : m.null = null
  sorted : m.IsSorted
  inside : m.IsInside
  contents : ∀ row col, (m.entry? row col).map (fun e => (e.first, e.second)) = f (row, col)

variable {m m' : Matrix} {f : PlainMap} {w : Write} {rows cols i row col : Int} {null : Int32}
  {e e' : Entry}

-- A call is a change of the entry at its position, or of nothing there.
theorem write_eq_update (m : Matrix) (w : Write) :
    ∃ value change, m.write w = m.update w.row w.col value change ∧
      (∀ e, (change e).row = e.row ∧ (change e).col = e.col) ∧
      w.pair m.null none = (value, m.null) ∧
      ∀ e, w.pair m.null (some (e.first, e.second)) = ((change e).first, (change e).second) := by
  cases w with
  | set row col value => exact ⟨value, _, rfl, fun _ => ⟨rfl, rfl⟩, rfl, fun _ => rfl⟩
  | add row col value =>
      refine ⟨value, _, rfl, fill_position m.null value, rfl, fun e => ?_⟩
      simp only [Write.pair, fill]
      split
      · rfl
      · split <;> rfl

theorem write_of_not_isWithin (hw : ¬w.IsWithin m.rows m.cols) :
    m.write w = .error ⟨w.row, w.col, m.rows, m.cols⟩ := by
  have hout : (w.row < 0 || m.rows ≤ w.row || w.col < 0 || m.cols ≤ w.col) = true := by
    simp only [Write.IsWithin] at hw
    simp only [Bool.or_eq_true, decide_eq_true_eq]
    omega
  obtain ⟨value, change, he, -⟩ := m.write_eq_update w
  rw [he, update, if_pos hout]

theorem perform_of_not_isWithin (hw : ¬w.IsWithin m.rows m.cols) : m.perform w = m := by
  rw [perform, write_of_not_isWithin hw]

-- A call at a position of the matrix does to the map what it says, and nothing anywhere else.
theorem Refines.write (h : m.Refines rows cols null f) (hw : w.IsWithin rows cols) :
    ∃ m', m.write w = .ok m' ∧ m'.Refines rows cols null (f.write rows cols null w) := by
  obtain ⟨rfl, rfl, rfl, hs, hin, hf⟩ := h
  obtain ⟨value, change, he, hchange, hnone, hsome⟩ := m.write_eq_update w
  obtain ⟨m', hm, hs', hrows, hcols, hnull, hentry⟩ := update_eq_ok hs hw.1 hw.2 value hchange
  refine ⟨m', he.trans hm, hrows, hcols, hnull, hs', hin.update hchange hm, fun row col => ?_⟩
  rw [hentry, PlainMap.write, if_pos hw]
  by_cases hat : row = w.row ∧ col = w.col
  · obtain ⟨rfl, rfl⟩ := hat
    rw [Function.update_self, if_pos ⟨rfl, rfl⟩, ← hf]
    cases m.entry? w.row w.col with
    | none => simp [hnone]
    | some e => simp [hsome]
  · have hne : (row, col) ≠ (w.row, w.col) := fun he => hat (Prod.mk.inj he)
    rw [Function.update_of_ne hne, if_neg hat, hf]

theorem Refines.perform (h : m.Refines rows cols null f) (w : Write) :
    (m.perform w).Refines rows cols null (f.write rows cols null w) := by
  by_cases hw : w.IsWithin rows cols
  · obtain ⟨m', hm, hm'⟩ := h.write hw
    rw [Matrix.perform, hm]
    exact hm'
  · rw [perform_of_not_isWithin (by rwa [h.rows_eq, h.cols_eq]), PlainMap.write, if_neg hw]
    exact h

theorem Refines.foldl (h : m.Refines rows cols null f) (writes : List Write) :
    (writes.foldl Matrix.perform m).Refines rows cols null
      (writes.foldl (PlainMap.write rows cols null) f) := by
  induction writes generalizing m f with
  | nil => exact h
  | cons w rest ih => exact ih (h.perform w)

theorem refines_after (rows cols : Int) (null : Int32) (writes : List Write) :
    (after rows cols null writes).Refines rows cols null
      (PlainMap.after rows cols null writes) := by
  have hsorted : (empty rows cols null).IsSorted := List.Pairwise.nil
  have hempty : (empty rows cols null).Refines rows cols null fun _ => none := by
    refine ⟨rfl, rfl, rfl, hsorted, (fun e he => nomatch he), fun row col => ?_⟩
    rw [entry?_eq_find? hsorted]
    rfl
  exact hempty.foldl writes

-- No two entries are at the same position.
theorem nodup_positions (hs : m.IsSorted) :
    (m.entries.toList.map fun e => (e.row, e.col)).Nodup := by
  rw [List.Nodup, List.pairwise_map]
  refine hs.imp fun {e e'} hlt hsame => ?_
  obtain ⟨hrow, hcol⟩ := Prod.mk.inj hsame
  rw [Entry.isBefore_iff] at hlt
  omega

theorem entry?_eq_some_iff (hs : m.IsSorted) :
    m.entry? row col = some e ↔ e ∈ m.entries.toList ∧ e.row = row ∧ e.col = col := by
  constructor
  · exact mem_of_entry_eq_some
  · rintro ⟨he, rfl, rfl⟩
    obtain ⟨e', he'⟩ := exists_entry_eq_some hs he
    obtain ⟨hmem, hrow, hcol⟩ := mem_of_entry_eq_some he'
    rw [he', List.inj_on_of_nodup_map (nodup_positions hs) hmem he (by rw [hrow, hcol])]

namespace Refines

variable (h : m.Refines rows cols null f)

include h

theorem values_eq (row col : Int) : m.values row col = (f (row, col)).getD (null, null) := by
  rw [← h.contents, ← h.null_eq, values]
  cases m.entry? row col <;> rfl

theorem mem_positions_iff (p : Int × Int) :
    p ∈ m.entries.toList.map (fun e => (e.row, e.col)) ↔ f p ≠ none := by
  obtain ⟨row, col⟩ := p
  rw [← h.contents, ne_eq, Option.map_eq_none_iff, ← ne_eq, Option.ne_none_iff_exists',
    List.mem_map]
  simp only [entry?_eq_some_iff h.sorted, Prod.mk.injEq]

-- The entries are counted by the positions that are set.
theorem encard_eq : {p | f p ≠ none}.encard = m.size := by
  have hset : {p | f p ≠ none} =
      (m.entries.toList.map fun e => (e.row, e.col)).toFinset := by
    ext p
    simpa using (h.mem_positions_iff p).symm
  rw [hset, Set.encard_coe_eq_coe_finsetCard,
    List.toFinset_card_of_nodup (nodup_positions h.sorted), List.length_map, size,
    Array.length_toList]

theorem pairwise_row (i : Int) : ((m.row i).map (·.col)).Pairwise (· < ·) := by
  have hcols := ascending_row (i := i) h.sorted h.inside
  rw [List.pairwise_map] at hcols ⊢
  exact hcols.imp fun hlt => by omega

-- A row lists the positions that are set in it.
theorem mem_row (j : Int) (pair : Int32 × Int32) :
    (j, pair) ∈ (m.row i).map (fun e => (e.col, e.first, e.second)) ↔ f (i, j) = some pair := by
  rw [← h.contents, Option.map_eq_some_iff, List.mem_map]
  simp only [mem_row_iff h.sorted h.inside, entry?_eq_some_iff h.sorted, Prod.mk.injEq]
  constructor
  · rintro ⟨e, ⟨he, hi⟩, hj, hpair⟩
    exact ⟨e, ⟨he, hi, hj⟩, hpair⟩
  · rintro ⟨e, ⟨he, hi, hj⟩, hpair⟩
    exact ⟨e, ⟨he, hi⟩, hj, hpair⟩

end Refines

-- Whatever has been stored in it, a matrix is the plain map that the calls make of an empty one.
-- Calls outside of it are refused and change nothing.
theorem after_refines (rows cols : Int) (null : Int32) (writes : List Write) :
    let m := after rows cols null writes
    let f := PlainMap.after rows cols null writes
    (∀ w, w.IsWithin rows cols → ∃ m', m.write w = .ok m') ∧
      (∀ w, ¬w.IsWithin rows cols →
        m.write w = .error ⟨w.row, w.col, rows, cols⟩ ∧ m.perform w = m) ∧
      (∀ row col, m.values row col = (f (row, col)).getD (null, null)) ∧
      m.IsSorted ∧ m.size = {p | f p ≠ none}.encard ∧
      ∀ i, ((m.row i).map (·.col)).Pairwise (· < ·) ∧ ∀ j pair,
        (j, pair) ∈ (m.row i).map (fun e => (e.col, e.first, e.second)) ↔ f (i, j) = some pair := by
  intro m f
  have h : m.Refines rows cols null f := refines_after rows cols null writes
  refine ⟨fun w hw => ?_, fun w hw => ?_, h.values_eq, h.sorted, h.encard_eq.symm,
    fun i => ⟨h.pairwise_row i, h.mem_row⟩⟩
  · obtain ⟨m', hm', -⟩ := h.write hw
    exact ⟨m', hm'⟩
  · rw [← h.rows_eq, ← h.cols_eq] at hw ⊢
    exact ⟨write_of_not_isWithin hw, perform_of_not_isWithin hw⟩

end Lookahead.Matrix
