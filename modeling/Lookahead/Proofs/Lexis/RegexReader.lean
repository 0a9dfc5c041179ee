import Lookahead.Lexis.RegexReader
import Lookahead.Proofs.Lexis.Language
import Lookahead.Proofs.Lexis.Longest

/-!
The expressions that are read have a byte in every class. Ranges are put in order when they are
read, and stay in order when they are merged or complemented.
-/

namespace Lookahead

namespace RegexReader

-- What a text matches when it is read as an expression. Malformed ones match nothing.
def Means : Meaning := fun source t => ∃ r, read? source = some r ∧ r.Matches t

variable {ranges : Ranges} {r s : Regex} {p q : Part} {t : Text} {b : UInt8} {place : Place}
variable {fuel : Nat} {reading : Reading}

def IsOrdered (ranges : Ranges) : Prop := ∀ r ∈ ranges, r.1 ≤ r.2

instance : DecidablePred IsOrdered := fun ranges => List.decidableBAll _ ranges

theorem IsOrdered.append {more : Ranges} (h : IsOrdered ranges) (h' : IsOrdered more) :
    IsOrdered (ranges ++ more) :=
  fun r hr => (List.mem_append.mp hr).elim (h r) (h' r)

theorem isOrdered_singleton {low high : UInt8} (h : low ≤ high) : IsOrdered [(low, high)] :=
  fun _ hr => List.mem_singleton.mp hr ▸ h

theorem isOrdered_addMember (h : IsOrdered ranges) : IsOrdered (addMember ranges b place).1 := by
  cases place with
  | behind a => exact h.append (isOrdered_singleton (UInt8.le_refl a))
  | inRange low =>
      refine h.append (isOrdered_singleton ?_)
      show (if low ≤ b then low else b) ≤ (if low ≤ b then b else low)
      grind
  | start => exact h
  | between => exact h

theorem isOrdered_closeAt {closed : Ranges} (h : IsOrdered ranges)
    (hclose : closeAt ranges place = some closed) : IsOrdered closed := by
  cases place with
  | behind a =>
      cases hclose
      exact h.append (isOrdered_singleton (UInt8.le_refl a))
  | between =>
      cases hclose
      exact h
  | start => cases hclose
  | inRange low => cases hclose

theorem isOrdered_readMembers {closed : Ranges × Text} (h : IsOrdered ranges)
    (hread : readMembers ranges place t = some closed) : IsOrdered closed.1 := by
  have hadd : ∀ {ranges : Ranges} {b : UInt8} {place place' : Place} {ranges' : Ranges},
      IsOrdered ranges → addMember ranges b place = (ranges', place') → IsOrdered ranges' := by
    intro ranges b place place' ranges' h heq
    have hordered : IsOrdered (addMember ranges b place).1 := isOrdered_addMember h
    rwa [heq] at hordered
  have hclose : ∀ {ranges : Ranges} {place : Place} {rest : Text}, IsOrdered ranges →
      (closeAt ranges place).map (·, rest) = some closed → IsOrdered closed.1 := by
    intro ranges place rest h heq
    obtain ⟨ranges', hranges', rfl⟩ := Option.map_eq_some_iff.mp heq
    exact isOrdered_closeAt h hranges'
  fun_induction readMembers ranges place t with
  | case1 => cases hread
  | case2 _ _ _ ih => exact ih h hread
  | case3 => exact hclose h hread
  | case4 => cases hread
  | case5 _ _ _ _ _ _ heq _ _ ih => exact ih (hadd h heq) hread
  | case6 _ _ _ _ _ _ _ _ _ heq ih => exact ih (hadd h heq) hread
  | case7 => exact hclose h hread
  | case8 => cases hread
  | case9 _ _ _ _ _ _ _ heq _ ih => exact ih (hadd h heq) hread
  | case10 _ _ _ _ _ _ _ _ _ heq ih => exact ih (hadd h heq) hread

-- Ranges one behind the other, by their low ends.
def IsAscending (ranges : Ranges) : Prop := ranges.Pairwise fun r s => r.1 ≤ s.1

theorem isAscending_sortBy (ranges : Ranges) : IsAscending (sortBy comesFirst ranges) := by
  have htrans : ∀ r s q : UInt8 × UInt8, r.1 ≤ s.1 → s.1 ≤ q.1 → r.1 ≤ q.1 :=
    fun _ _ _ => UInt8.le_trans
  refine pairwise_sortBy htrans (fun r s h => ?_) (fun r s h => ?_) ranges
  · simp only [comesFirst, Bool.or_eq_true, Bool.and_eq_true, decide_eq_true_eq] at h
    grind
  · simp only [comesFirst, Bool.or_eq_false_iff, decide_eq_false_iff_not] at h
    exact UInt8.not_lt.mp h.1

theorem isOrdered_mergeBehind {r : UInt8 × UInt8} (hr : r.1 ≤ r.2)
    (hbehind : ∀ s ∈ ranges, r.1 ≤ s.1) (h : IsOrdered ranges)
    (hascending : IsAscending ranges) : IsOrdered (mergeBehind r ranges) := by
  fun_induction mergeBehind r ranges with
  | case1 r => exact isOrdered_singleton hr
  | case2 r s rest _ ih =>
      obtain ⟨-, hrest⟩ := List.pairwise_cons.mp hascending
      exact ih hr (List.forall_mem_cons.mp hbehind).2 (List.forall_mem_cons.mp h).2 hrest
  | case3 r s rest _ _ ih =>
      obtain ⟨-, hrest⟩ := List.pairwise_cons.mp hascending
      obtain ⟨hs, hbehind⟩ := List.forall_mem_cons.mp hbehind
      obtain ⟨hordered, h⟩ := List.forall_mem_cons.mp h
      exact ih (UInt8.le_trans hs hordered) hbehind h hrest
  | case4 r s rest _ _ ih =>
      obtain ⟨hs, hrest⟩ := List.pairwise_cons.mp hascending
      obtain ⟨hordered, h⟩ := List.forall_mem_cons.mp h
      exact List.forall_mem_cons.mpr ⟨hr, ih hordered hs h hrest⟩

theorem isOrdered_mergeRanges (h : IsOrdered ranges) : IsOrdered (mergeRanges ranges) := by
  have hordered : IsOrdered (sortBy comesFirst ranges) := fun r hr => h r (mem_sortBy.mp hr)
  have hascending := isAscending_sortBy ranges
  unfold mergeRanges
  split
  · exact List.forall_mem_nil _
  · next r rest heq =>
    rw [heq] at hordered hascending
    obtain ⟨hr, hrest⟩ := List.forall_mem_cons.mp hordered
    obtain ⟨hbehind, hascending⟩ := List.pairwise_cons.mp hascending
    exact isOrdered_mergeBehind hr hbehind hrest hascending

theorem isOrdered_gapsFrom (low : Nat) (ranges : Ranges) :
    IsOrdered (ByteClass.gapsFrom low ranges) := by
  induction ranges generalizing low with
  | nil =>
      rw [ByteClass.gapsFrom]
      split
      · refine isOrdered_singleton ?_
        rw [UInt8.le_iff_toNat_le]
        exact Nat.le_of_lt_succ (UInt8.toNat_lt _)
      · exact List.forall_mem_nil _
  | cons r rest ih =>
      rw [ByteClass.gapsFrom]
      split
      · next hlt =>
        refine List.forall_mem_cons.mpr ⟨?_, ih _⟩
        have hfirst := r.1.toNat_lt
        have hpos : (1 : UInt8) ≤ r.1 := by
          rw [UInt8.le_iff_toNat_le]
          exact Nat.lt_of_le_of_lt (Nat.zero_le low) hlt
        rw [UInt8.le_iff_toNat_le, UInt8.toNat_ofNat_of_lt' (Nat.lt_trans hlt hfirst),
          UInt8.toNat_sub_of_le _ _ hpos]
        exact Nat.le_sub_one_of_lt hlt
      · exact ih _

theorem isOrdered_readClass {c : ByteClass} {rest : Text} (h : readClass t = some (c, rest)) :
    IsOrdered c.ranges := by
  obtain ⟨⟨ranges, rest'⟩, hread, heq⟩ := Option.map_eq_some_iff.mp h
  have hordered := isOrdered_mergeRanges (isOrdered_readMembers (List.forall_mem_nil _) hread)
  cases heq
  split
  · exact isOrdered_gapsFrom 0 _
  · exact hordered

def Part.IsProductive : Part → Prop
  | .regex r => r.IsProductive
  | _ => True

theorem isProductive_single (b : UInt8) : (Part.ofClass (.single b)).IsProductive :=
  ⟨List.cons_ne_nil _ _, isOrdered_singleton (UInt8.le_refl b)⟩

theorem isProductive_escapeClass (b : UInt8) : (Part.ofClass (escapeClass b)).IsProductive := by
  unfold escapeClass
  split_ifs
  · exact ⟨nofun, (by decide : IsOrdered digitClass.ranges)⟩
  · exact ⟨nofun, (by decide : IsOrdered blankClass.ranges)⟩
  · exact ⟨nofun, (by decide : IsOrdered wordClass.ranges)⟩
  · exact ⟨(by decide : digitClass.complement.ranges ≠ []), isOrdered_gapsFrom 0 _⟩
  · exact ⟨(by decide : blankClass.complement.ranges ≠ []), isOrdered_gapsFrom 0 _⟩
  · exact ⟨(by decide : wordClass.complement.ranges ≠ []), isOrdered_gapsFrom 0 _⟩
  · exact isProductive_single _

-- Operators that are absorbed leave the parts of an expression as they are.
theorem isProductive_applyOperator (h : r.IsProductive) : (applyOperator b r).IsProductive := by
  unfold applyOperator
  split_ifs <;> cases r <;> exact h

theorem isProductive_readOperators (h : p.IsProductive) : (readOperators p t).1.IsProductive := by
  fun_induction readOperators p t with
  | case1 p => exact h
  | case2 p b rest _ ih =>
      refine ih ?_
      cases p with
      | regex r => exact isProductive_applyOperator h
      | nothing => trivial
      | broken => trivial
  | case3 p b rest _ => exact h

theorem isProductive_withOperators (h : p.IsProductive) :
    ∀ q ∈ (withOperators p t).1, q.IsProductive := by
  intro q hq
  obtain rfl := Option.mem_some.mp hq
  exact isProductive_readOperators h

theorem isProductive_readUnit : ∀ q ∈ (readUnit b t).1, q.IsProductive := by
  unfold readUnit
  split_ifs with hbracket hoperator hescape hdot
  · split
    · exact nofun
    · next c behind hread =>
      split
      · exact nofun
      · next hempty =>
        refine isProductive_withOperators ⟨fun hnil => hempty ?_, isOrdered_readClass hread⟩
        rw [ByteClass.isEmpty, hnil]
        rfl
  · exact nofun
  · split
    · intro q hq
      obtain rfl := Option.mem_some.mp hq
      exact isProductive_single b
    · exact isProductive_withOperators (isProductive_escapeClass _)
  · exact isProductive_withOperators ⟨nofun, isOrdered_singleton (by decide)⟩
  · exact isProductive_withOperators (isProductive_single b)

theorem isProductive_join {f : Regex → Regex → Regex} (hp : p.IsProductive) (hq : q.IsProductive)
    (hf : ∀ r s : Regex, r.IsProductive → s.IsProductive → (f r s).IsProductive) :
    (p.join f q).IsProductive := by
  cases p with
  | nothing => cases q <;> trivial
  | broken => cases q <;> trivial
  | regex r =>
      cases q with
      | nothing => exact hp
      | regex s => exact hf r s hp hq
      | broken => trivial

theorem isProductive_reading (fuel : Nat) :
    (∀ t, (readExpression fuel t).1.IsProductive) ∧ (∀ t, (readSequence fuel t).1.IsProductive) ∧
      ∀ b t, ∀ q ∈ (readItem fuel b t).1, q.IsProductive := by
  induction fuel with
  | zero =>
      refine ⟨fun t => ?_, fun t => ?_, fun b t q hq => ?_⟩
      · rw [readExpression]
        trivial
      · rw [readSequence]
        trivial
      · rw [readItem] at hq
        cases hq
  | succ fuel ih =>
      obtain ⟨hexpression, hsequence, hitem⟩ := ih
      refine ⟨fun t => ?_, fun t => ?_, fun b t => ?_⟩
      · rw [readExpression]
        have hfirst := hsequence t
        split
        · next p rest heq =>
          rw [heq] at hfirst
          exact isProductive_join hfirst (hexpression rest) fun _ _ hr hs => ⟨hr, hs⟩
        · exact hfirst
      · cases t with
        | nil =>
            rw [readSequence]
            trivial
        | cons b rest =>
            rw [readSequence]
            have hfirst := hitem b rest
            split
            · next p rest' heq =>
              rw [heq] at hfirst
              exact isProductive_join (hfirst p rfl) (hsequence rest') fun _ _ hr hs => ⟨hr, hs⟩
            · trivial
      · rw [readItem]
        split
        · have hinner := hexpression t
          split
          · next p rest heq =>
            rw [heq] at hinner
            exact isProductive_withOperators hinner
          · exact nofun
        · exact isProductive_readUnit

theorem isProductive_of_read? (h : read? t = some r) : r.IsProductive := by
  have hread := (isProductive_reading (3 * t.length + 3)).1 t
  unfold read? at h
  split at h
  · next p heq =>
    rw [heq] at hread
    cases p with
    | regex r =>
        cases h
        exact hread
    | nothing => cases h
    | broken => cases h
  · cases h

end RegexReader

end Lookahead
