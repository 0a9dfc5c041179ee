import Lookahead.Session.FileReader
import Mathlib.Data.List.Basic
import Mathlib.Data.List.Infix
import Mathlib.Data.List.TakeWhile

/-!
A reader takes a file in pieces, but what it gives are the lines of the file, one after the other,
as long as none of them is too long for its buffer.
-/

namespace Lookahead

namespace Text

-- The lines of a text without their ends. The last one need not have an end.
def linesOf : Text → List Text
  | [] => []
  | b :: rest =>
    if b = 0x0A then [] :: linesOf rest
    else
      match linesOf rest with
      | [] => [[b]]
      | line :: lines => (b :: line) :: lines

def firstLine (t : Text) : Text := t.takeWhile (· ≠ 0x0A)

def behindLine (t : Text) : Text := t.drop ((firstLine t).length + 1)

variable {t u : Text}

theorem linesOf_eq (h : t ≠ []) : linesOf t = firstLine t :: linesOf (behindLine t) := by
  induction t with
  | nil => exact absurd rfl h
  | cons b t ih =>
      by_cases hb : b = 0x0A
      · simp [linesOf, firstLine, behindLine, hb]
      · have hfirst : firstLine (b :: t) = b :: firstLine t := by simp [firstLine, hb]
        have hbehind : behindLine (b :: t) = behindLine t := by
          rw [behindLine, hfirst, List.length_cons, List.drop_succ_cons]
          rfl
        rw [linesOf, if_neg hb, hfirst, hbehind]
        cases t with
        | nil => rfl
        | cons c t => rw [ih (List.cons_ne_nil c t)]

theorem length_behindLine_lt (h : t ≠ []) : (behindLine t).length < t.length := by
  have hpos := List.length_pos_iff.mpr h
  rw [behindLine, List.length_drop]
  omega

-- A text with a line end has its first line in front of whatever follows.
theorem firstLine_append (h : (firstLine t).length < t.length) (u : Text) :
    firstLine (t ++ u) = firstLine t := by
  unfold firstLine at h ⊢
  rw [List.takeWhile_append, if_neg (Nat.ne_of_lt h)]

theorem length_le_firstLine_append (h : t.length ≤ (firstLine t).length) (u : Text) :
    t.length ≤ (firstLine (t ++ u)).length := by
  have heq : (t.takeWhile (· ≠ 0x0A)).length = t.length :=
    Nat.le_antisymm (List.takeWhile_prefix _).length_le h
  rw [firstLine, List.takeWhile_append, if_pos heq, List.length_append]
  exact Nat.le_add_right _ _

end Text

namespace FileReader

open Text

variable {content rest line : Text} {r r' : FileReader} {fuel : Nat}

-- A reader of a file that has a part of it still to give.
structure IsAt (content : Text) (r : FileReader) (rest : Text) : Prop where
  rest_eq : rest = r.bytes ++ content.drop r.offset
  stop_le : r.stop ≤ r.capacity
  taken : r.isDone = true → content.drop r.offset = []

theorem isAt_new (content : Text) : IsAt content .new content := ⟨rfl, Nat.le_refl 0, nofun⟩

theorem IsAt.takeLine?_eq_some (h : IsAt content r rest) (hline : r.takeLine? = some (line, r')) :
    rest ≠ [] ∧ line = dropReturn (firstLine rest) ∧ IsAt content r' (behindLine rest) := by
  obtain ⟨rfl, hstop, htaken⟩ := h
  unfold stop at hstop
  unfold takeLine? at hline
  dsimp only at hline
  split_ifs at hline with hend hlast
  · have hend : (firstLine r.bytes).length < r.bytes.length := hend
    cases hline
    refine ⟨?_, ?_, ?_, ?_, htaken⟩
    · exact List.append_ne_nil_of_left_ne_nil (List.ne_nil_of_length_pos (by omega)) _
    · rw [firstLine_append hend]
      rfl
    · rw [behindLine, firstLine_append hend, List.drop_append_of_le_length hend]
      rfl
    · show r.start + ((firstLine r.bytes).length + 1) +
        (r.bytes.drop ((firstLine r.bytes).length + 1)).length ≤ r.capacity
      rw [List.length_drop]
      omega
  · have hbytes : firstLine r.bytes = r.bytes := by
      refine (List.takeWhile_prefix _).eq_of_length_le ?_
      exact Nat.le_of_not_lt hend
    have hfile := htaken (Bool.and_eq_true_iff.mp hlast).1
    cases hline
    rw [hfile, List.append_nil]
    refine ⟨?_, ?_, ?_, ?_, htaken⟩
    · rintro hnil
      simp [hnil] at hlast
    · rfl
    · show behindLine r.bytes = [] ++ content.drop r.offset
      rw [behindLine, hbytes, hfile, List.drop_of_length_le (Nat.le_succ _), List.append_nil]
    · show r.start + (firstLine r.bytes).length + 0 ≤ r.capacity
      rw [hbytes]
      exact hstop

theorem takeLine?_eq_none (hline : r.takeLine? = none) :
    r.bytes.length ≤ (firstLine r.bytes).length ∧ (r.isDone = true → r.bytes = []) := by
  unfold takeLine? at hline
  dsimp only at hline
  split_ifs at hline with hend hlast
  refine ⟨Nat.le_of_not_lt hend, fun hdone => ?_⟩
  rw [hdone, Bool.true_and] at hlast
  simpa using hlast

theorem eq_of_grow?_shift (h : r.shift.grow? = some r') :
    r'.bytes = r.bytes ∧ r'.offset = r.offset ∧ r'.isDone = r.isDone := by
  unfold grow? shift at h
  split_ifs at h <;> cases h <;> exact ⟨rfl, rfl, rfl⟩

-- A reader with a full buffer and no line end has a line that is too long for any buffer.
theorem exists_grow? (h : IsAt content r rest) (hline : r.takeLine? = none)
    (hshort : (firstLine rest).length < lastCapacity) :
    ∃ r', r.shift.grow? = some r' ∧ r'.stop < r'.capacity := by
  have hbytes : r.bytes.length < lastCapacity := by
    refine Nat.lt_of_le_of_lt ?_ hshort
    rw [h.rest_eq]
    exact length_le_firstLine_append (takeLine?_eq_none hline).1 _
  have hstop : r.shift.stop ≤ r.shift.capacity ∧
      (r.shift.stop = r.shift.capacity → r.shift.start = 0) := by
    have hle := h.stop_le
    unfold shift
    split_ifs with hfull
    · refine ⟨?_, fun _ => rfl⟩
      simp only [stop] at hle ⊢
      omega
    · simp only [Bool.or_eq_true, decide_eq_true_eq, not_or] at hfull
      exact ⟨hle, fun heq => absurd heq hfull.1⟩
  have hsame : r.shift.bytes = r.bytes := by
    unfold shift
    split_ifs <;> rfl
  unfold grow?
  by_cases hroom : r.shift.stop < r.shift.capacity
  · rw [if_pos hroom]
    exact ⟨_, rfl, hroom⟩
  · have hfull := Nat.le_antisymm hstop.1 (Nat.le_of_not_lt hroom)
    have hcapacity : r.shift.capacity = r.bytes.length := by
      rw [← hfull, stop, hstop.2 hfull, hsame, Nat.zero_add]
    rw [if_neg hroom, if_neg (by omega)]
    refine ⟨_, rfl, ?_⟩
    show 0 + r.shift.bytes.length < max firstCapacity (2 * r.shift.capacity)
    rw [hsame, hcapacity, firstCapacity]
    omega

-- Filling takes bytes off the file, unless there are none.
theorem IsAt.fill (h : IsAt content r rest) (hroom : r.stop < r.capacity) :
    IsAt content (r.fill content) rest ∧
      ((r.fill content).isDone = false →
        (content.drop (r.fill content).offset).length < (content.drop r.offset).length) := by
  obtain ⟨rfl, -, -⟩ := h
  unfold stop at hroom
  generalize hpiece : (content.drop r.offset).take (r.capacity - r.stop) = piece
  have hfill : r.fill content =
      { r with bytes := r.bytes ++ piece, offset := r.offset + piece.length,
               isDone := piece.isEmpty } := by
    rw [← hpiece]
    rfl
  have hprefix : piece <+: content.drop r.offset := hpiece ▸ List.take_prefix _ _
  have hsplit : piece ++ content.drop (r.offset + piece.length) = content.drop r.offset := by
    rw [← List.drop_drop]
    exact (List.prefix_append_drop hprefix).symm
  have hlength : piece.length ≤ r.capacity - r.stop := hpiece ▸ List.length_take_le _ _
  rw [hfill]
  refine ⟨⟨?_, ?_, ?_⟩, ?_⟩
  · rw [List.append_assoc, hsplit]
  · show r.start + (r.bytes ++ piece).length ≤ r.capacity
    rw [List.length_append]
    unfold stop at hlength
    omega
  · intro hdone
    have hnil : piece = [] := List.isEmpty_iff.mp hdone
    subst hnil
    show content.drop (r.offset + 0) = []
    refine (List.take_eq_nil_iff.mp hpiece).resolve_left ?_
    unfold stop
    omega
  · intro hmore
    have hpos : 0 < piece.length := by
      refine List.length_pos_iff.mpr fun hnil => ?_
      simp [hnil] at hmore
    rw [← hsplit, List.length_append]
    exact Nat.lt_add_of_pos_left hpos

-- What reading gives of a file of which `rest` has not been given yet.
def Gives (content rest : Text) : Reading → Prop
  | .line line r => rest ≠ [] ∧ line = dropReturn (firstLine rest) ∧
      IsAt content r (behindLine rest)
  | .lineTooLong => False
  | .done => rest = []

-- Every round leaves fewer bytes in the file, but for the one that finds none.
theorem IsAt.gives_nextFrom (h : IsAt content r rest)
    (hshort : (firstLine rest).length < lastCapacity)
    (hfuel : (content.drop r.offset).length + (if r.isDone then 1 else 2) ≤ fuel) :
    Gives content rest (r.nextFrom content fuel) := by
  induction fuel generalizing r with
  | zero => split_ifs at hfuel <;> omega
  | succ fuel ih =>
      rw [nextFrom]
      cases hline : r.takeLine? with
      | some found => exact h.takeLine?_eq_some hline
      | none =>
          cases hdone : r.isDone with
          | true =>
              show rest = []
              rw [h.rest_eq, (takeLine?_eq_none hline).2 hdone, h.taken hdone, List.append_nil]
          | false =>
              obtain ⟨r', hgrow, hroom⟩ := exists_grow? h hline hshort
              obtain ⟨hbytes, hoffset, hstill⟩ := eq_of_grow?_shift hgrow
              have h' : IsAt content r' rest := by
                refine ⟨by rw [hbytes, hoffset, h.rest_eq], hroom.le, fun htrue => ?_⟩
                rw [hstill, hdone] at htrue
                exact nomatch htrue
              obtain ⟨hfilled, hless⟩ := h'.fill hroom
              rw [hoffset] at hless
              rw [hdone] at hfuel
              simp only [hgrow, Bool.false_eq_true, if_false] at hfuel ⊢
              refine ih hfilled ?_
              split_ifs with hlast
              · rw [hfilled.taken hlast, List.length_nil]
                omega
              · have := hless (Bool.not_eq_true _ ▸ hlast)
                omega

-- In whatever place a reader is, it gives the lines ahead of it, up to the end.
theorem IsAt.gives_next (h : IsAt content r rest)
    (hshort : (firstLine rest).length < lastCapacity) :
    Gives content rest (r.next content) := by
  refine h.gives_nextFrom hshort ?_
  rw [List.length_drop]
  split_ifs <;> omega

-- How many bytes a reader may still give, if no file is longer than the limit.
def ahead (limit : Nat) (r : FileReader) : Nat := r.bytes.length + (limit - r.offset)

theorem ahead_fill_le {limit : Nat} (r : FileReader) (h : content.length ≤ limit) :
    (r.fill content).ahead limit ≤ r.ahead limit := by
  show (r.bytes ++ _).length + (limit - (r.offset + _)) ≤ _
  simp only [ahead, List.length_append, List.length_take, List.length_drop]
  omega

theorem ahead_takeLine?_lt {limit : Nat} (h : r.takeLine? = some (line, r')) :
    r'.ahead limit < r.ahead limit := by
  unfold takeLine? at h
  dsimp only at h
  split_ifs at h with hend hlast
  · cases h
    simp only [ahead, List.length_drop]
    omega
  · cases h
    have hpos : 0 < r.bytes.length := by
      refine List.length_pos_iff.mpr fun hnil => ?_
      simp [hnil] at hlast
    simp only [ahead, List.length_nil]
    omega

-- Every line takes a byte at least, also if the file is another one by then.
theorem ahead_nextFrom_lt {limit : Nat} (hcontent : content.length ≤ limit)
    (h : r.nextFrom content fuel = .line line r') : r'.ahead limit < r.ahead limit := by
  induction fuel generalizing r with
  | zero => exact nomatch h
  | succ fuel ih =>
      rw [nextFrom] at h
      cases hline : r.takeLine? with
      | some found =>
          rw [hline] at h
          cases h
          exact ahead_takeLine?_lt hline
      | none =>
          simp only [hline] at h
          split_ifs at h
          cases hgrow : r.shift.grow? with
          | none =>
              rw [hgrow] at h
              exact nomatch h
          | some grown =>
              obtain ⟨hbytes, hoffset, -⟩ := eq_of_grow?_shift hgrow
              rw [hgrow] at h
              refine (ih h).trans_le ((ahead_fill_le grown hcontent).trans ?_)
              rw [ahead, ahead, hbytes, hoffset]

end FileReader

end Lookahead
