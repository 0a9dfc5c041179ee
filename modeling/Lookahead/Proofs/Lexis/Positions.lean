import Lookahead.Lexis.Positions
import Lookahead.Proofs.Lexis.Language
import Mathlib.Order.Interval.Set.Basic

/-!
Positions tell what the expressions match: a text leads from the positions at which a match may
begin to the end of a rule if and only if the rule's expression matches it.
-/

namespace Lookahead

namespace Positions

variable {p p' : Positions} {i j rule lo mid hi : Nat} {b : UInt8} {t u v : Text}
variable {r s : Regex} {F G K L M N S : Set Nat}

def Reads (p : Positions) (i : Nat) (b : UInt8) : Prop :=
  ∃ m ∈ p.marks[i]?, m.reads b.toNat = true

def Follows (p : Positions) (i j : Nat) : Prop := ∃ next ∈ p.followers[i]?, j ∈ next

-- A text that can be read from a position on, up to the end of a rule.
inductive Run (p : Positions) (rule : Nat) : Nat → Text → Prop
  | finish {i : Nat} (h : p.marks[i]? = some (.finish rule)) : Run p rule i []
  | read {i j : Nat} {b : UInt8} {t : Text} (hb : p.Reads i b) (hj : p.Follows i j)
      (h : Run p rule j t) : Run p rule i (b :: t)

-- The same from one of some positions on.
def Leads (p : Positions) (rule : Nat) (S : Set Nat) (t : Text) : Prop := ∃ i ∈ S, p.Run rule i t

theorem leads_union : p.Leads rule (S ∪ K) t ↔ p.Leads rule S t ∨ p.Leads rule K t := by
  simp only [Leads, Set.mem_union, or_and_right, exists_or]

-- The positions of an expression, from `lo` up to `hi`: a match begins at one of `F`, and behind
-- the last of its positions, one of `L`, one of `K` has to come next.
inductive Placed (p : Positions) : (lo hi : Nat) → Regex → (K F L : Set Nat) → Prop
  | epsilon {lo : Nat} {K : Set Nat} : Placed p lo lo .epsilon K ∅ ∅
  | bytes {lo hi : Nat} {c : ByteClass} {K : Set Nat} (hhi : hi = lo + c.ranges.length)
      (hmarks : ∀ k (h : k < c.ranges.length),
        p.marks[lo + k]? = some (.bytes c.ranges[k].1.toNat c.ranges[k].2.toNat))
      (hfollows : ∀ i ∈ Set.Ico lo hi, ∀ j, p.Follows i j ↔ j ∈ K) :
      Placed p lo hi (.bytes c) K (Set.Ico lo hi) (Set.Ico lo hi)
  | cat {lo mid hi : Nat} {r s : Regex} {K F G L M : Set Nat}
      (hr : Placed p lo mid r (if s.nullable then G ∪ K else G) F L)
      (hs : Placed p mid hi s K G M) :
      Placed p lo hi (.cat r s) K (if r.nullable then F ∪ G else F)
        (if s.nullable then L ∪ M else M)
  | alt {lo mid hi : Nat} {r s : Regex} {K F G L M : Set Nat} (hr : Placed p lo mid r K F L)
      (hs : Placed p mid hi s K G M) : Placed p lo hi (.alt r s) K (F ∪ G) (L ∪ M)
  | star {lo hi : Nat} {r : Regex} {K F L : Set Nat} (hr : Placed p lo hi r (K ∪ F) F L) :
      Placed p lo hi (.star r) K F L
  | plus {lo hi : Nat} {r : Regex} {K F L : Set Nat} (hr : Placed p lo hi r (K ∪ F) F L) :
      Placed p lo hi (.plus r) K F L
  | optional {lo hi : Nat} {r : Regex} {K F L : Set Nat} (hr : Placed p lo hi r K F L) :
      Placed p lo hi (.optional r) K F L

theorem reads_iff {low high : UInt8} (h : p.marks[i]? = some (.bytes low.toNat high.toNat)) :
    p.Reads i b ↔ low ≤ b ∧ b ≤ high := by
  simp only [Reads, h, Option.mem_some, exists_eq_left', Mark.reads, Bool.and_eq_true,
    decide_eq_true_eq, UInt8.le_iff_toNat_le]

-- The positions of a class read the bytes in it.
theorem contains_iff_reads {c : ByteClass} (hmarks : ∀ k (h : k < c.ranges.length),
    p.marks[lo + k]? = some (.bytes c.ranges[k].1.toNat c.ranges[k].2.toNat)) :
    c.contains b = true ↔ ∃ i ∈ Set.Ico lo (lo + c.ranges.length), p.Reads i b := by
  rw [ByteClass.contains, List.any_eq_true]
  constructor
  · rintro ⟨range, hrange, hb⟩
    obtain ⟨k, hk, rfl⟩ := List.getElem_of_mem hrange
    refine ⟨lo + k, ⟨by omega, by omega⟩, ?_⟩
    simpa [reads_iff (hmarks k hk)] using hb
  · rintro ⟨i, ⟨hlo, hhi⟩, hb⟩
    obtain ⟨k, rfl⟩ := Nat.exists_eq_add_of_le hlo
    have hk : k < c.ranges.length := by omega
    rw [reads_iff (hmarks k hk)] at hb
    exact ⟨_, List.getElem_mem hk, by simpa using hb⟩

-- A text that starts with a match, of one byte at least, and goes on with one of `K`.
def Takes (p : Positions) (rule : Nat) (r : Regex) (K : Set Nat) (t : Text) : Prop :=
  ∃ u v, t = u ++ v ∧ u ≠ [] ∧ r.Matches u ∧ p.Leads rule K v

theorem leads_bytes {c : ByteClass} (hreads : ∀ b, c.contains b = true ↔ ∃ i ∈ S, p.Reads i b)
    (hfollows : ∀ i ∈ S, ∀ j, p.Follows i j ↔ j ∈ K)
    (hfinish : ∀ i ∈ S, p.marks[i]? ≠ some (.finish rule)) :
    p.Leads rule S t ↔ p.Takes rule (.bytes c) K t := by
  constructor
  · rintro ⟨i, hi, hrun⟩
    cases hrun with
    | finish h => exact absurd h (hfinish i hi)
    | @read _ j b t hb hj hrun =>
        have hc := (hreads b).mpr ⟨i, hi, hb⟩
        exact ⟨[b], t, rfl, List.cons_ne_nil _ _, .bytes hc, j, (hfollows i hi j).mp hj, hrun⟩
  · rintro ⟨u, v, rfl, -, hmatches, j, hj, hrun⟩
    cases hmatches with
    | bytes hc =>
        obtain ⟨i, hi, hb⟩ := (hreads _).mp hc
        exact ⟨i, hi, .read hb ((hfollows i hi j).mpr hj) hrun⟩

-- An expression may be passed over if it is nullable.
theorem leads_passing (hs : ∀ t, p.Leads rule G t ↔ p.Takes rule s K t) :
    p.Leads rule (if s.nullable then G ∪ K else G) t ↔
      ∃ u v, t = u ++ v ∧ s.Matches u ∧ p.Leads rule K v := by
  have hnonempty : p.Leads rule G t → ∃ u v, t = u ++ v ∧ s.Matches u ∧ p.Leads rule K v := by
    intro h
    obtain ⟨u, v, ht, -, hmatches, hv⟩ := (hs t).mp h
    exact ⟨u, v, ht, hmatches, hv⟩
  by_cases hnull : s.nullable = true
  · rw [if_pos hnull, leads_union]
    refine ⟨fun h => h.elim hnonempty fun hv => ⟨[], t, rfl, Regex.nullable_iff.mp hnull, hv⟩, ?_⟩
    rintro ⟨u, v, rfl, hmatches, hv⟩
    by_cases hu : u = []
    · subst hu
      exact .inr hv
    · exact .inl ((hs _).mpr ⟨u, v, rfl, hu, hmatches, hv⟩)
  · rw [if_neg hnull]
    refine ⟨hnonempty, ?_⟩
    rintro ⟨u, v, rfl, hmatches, hv⟩
    refine (hs _).mpr ⟨u, v, rfl, ?_, hmatches, hv⟩
    rintro rfl
    exact hnull (Regex.nullable_iff.mpr hmatches)

theorem leads_cat (hr : ∀ t, p.Leads rule F t ↔
      p.Takes rule r (if s.nullable then G ∪ K else G) t)
    (hs : ∀ t, p.Leads rule G t ↔ p.Takes rule s K t) :
    p.Leads rule (if r.nullable then F ∪ G else F) t ↔ p.Takes rule (.cat r s) K t := by
  have hboth : p.Leads rule F t ↔ ∃ u v w, t = u ++ (v ++ w) ∧ u ≠ [] ∧ r.Matches u ∧
      s.Matches v ∧ p.Leads rule K w := by
    rw [hr, Takes]
    constructor
    · rintro ⟨u, v, rfl, hu, hmatches, hv⟩
      obtain ⟨v, w, rfl, hmatches', hw⟩ := (leads_passing hs).mp hv
      exact ⟨u, v, w, rfl, hu, hmatches, hmatches', hw⟩
    · rintro ⟨u, v, w, rfl, hu, hmatches, hmatches', hw⟩
      exact ⟨u, v ++ w, rfl, hu, hmatches, (leads_passing hs).mpr ⟨v, w, rfl, hmatches', hw⟩⟩
  have hfirst : p.Leads rule F t → p.Takes rule (.cat r s) K t := by
    intro h
    obtain ⟨u, v, w, rfl, hu, hmatches, hmatches', hw⟩ := hboth.mp h
    exact ⟨u ++ v, w, (List.append_assoc u v w).symm, List.append_ne_nil_of_left_ne_nil hu v,
      hmatches.cat hmatches', hw⟩
  constructor
  · intro h
    split at h
    · next hnull =>
      rcases leads_union.mp h with h | h
      · exact hfirst h
      · obtain ⟨u, v, rfl, hu, hmatches, hv⟩ := (hs t).mp h
        exact ⟨u, v, rfl, hu, (Regex.nullable_iff.mp hnull).cat hmatches, hv⟩
    · exact hfirst h
  · rintro ⟨uv, w, rfl, hne, hmatches, hw⟩
    obtain ⟨u, v, rfl, hu, hv⟩ := hmatches.cat_inv
    by_cases hempty : u = []
    · subst hempty
      rw [if_pos (Regex.nullable_iff.mpr hu), leads_union]
      exact .inr ((hs _).mpr ⟨v, w, rfl, hne, hv, hw⟩)
    · have h := hboth.mpr ⟨u, v, w, List.append_assoc u v w, hempty, hu, hv, hw⟩
      split
      · exact leads_union.mpr (.inl h)
      · exact h

-- By induction on the text: a match is taken off its front.
theorem leads_star (hr : ∀ t, p.Leads rule F t ↔ p.Takes rule r (K ∪ F) t) :
    p.Leads rule F t ↔ p.Takes rule (.star r) K t := by
  constructor
  · intro h
    induction hn : t.length using Nat.strongRecOn generalizing t with
    | ind n ih =>
        obtain ⟨u, v, rfl, hu, hmatches, hv⟩ := (hr t).mp h
        rcases leads_union.mp hv with hv | hv
        · exact ⟨u, v, rfl, hu, by simpa using hmatches.more .stop, hv⟩
        · have hpos := List.length_pos_iff.mpr hu
          have hshorter : v.length < n := by
            rw [← hn, List.length_append]
            omega
          obtain ⟨v, w, rfl, -, hstar, hw⟩ := ih v.length hshorter hv rfl
          exact ⟨u ++ v, w, (List.append_assoc u v w).symm,
            List.append_ne_nil_of_left_ne_nil hu v, hmatches.more hstar, hw⟩
  · rintro ⟨u, w, rfl, hu, hstar, hw⟩
    induction hn : u.length using Nat.strongRecOn generalizing u with
    | ind n ih =>
        obtain ⟨x, v, rfl, hx, hmatches, hrest⟩ := hstar.star_inv hu
        refine (hr _).mpr ⟨x, v ++ w, List.append_assoc x v w, hx, hmatches, leads_union.mpr ?_⟩
        by_cases hv : v = []
        · subst hv
          exact .inl hw
        · have hpos := List.length_pos_iff.mpr hx
          have hshorter : v.length < n := by
            rw [← hn, List.length_append]
            omega
          exact .inr (ih v.length hshorter v hv hrest rfl)

theorem takes_plus : p.Takes rule (.plus r) K t ↔ p.Takes rule (.star r) K t := by
  constructor
  · rintro ⟨u, v, rfl, hu, hmatches, hv⟩
    obtain ⟨x, y, rfl, hx, hy⟩ := hmatches.plus_inv
    exact ⟨x ++ y, v, rfl, hu, hx.more hy, hv⟩
  · rintro ⟨u, v, rfl, hu, hmatches, hv⟩
    obtain ⟨x, y, rfl, -, hx, hy⟩ := hmatches.star_inv hu
    exact ⟨x ++ y, v, rfl, hu, hx.plus hy, hv⟩

theorem takes_alt : p.Takes rule (.alt r s) K t ↔ p.Takes rule r K t ∨ p.Takes rule s K t := by
  constructor
  · rintro ⟨u, v, rfl, hu, hmatches, hv⟩
    cases hmatches with
    | left hr => exact .inl ⟨u, v, rfl, hu, hr, hv⟩
    | right hs => exact .inr ⟨u, v, rfl, hu, hs, hv⟩
  · rintro (⟨u, v, rfl, hu, hr, hv⟩ | ⟨u, v, rfl, hu, hs, hv⟩)
    · exact ⟨u, v, rfl, hu, .left hr, hv⟩
    · exact ⟨u, v, rfl, hu, .right hs, hv⟩

theorem takes_optional : p.Takes rule (.optional r) K t ↔ p.Takes rule r K t := by
  constructor
  · rintro ⟨u, v, rfl, hu, hmatches, hv⟩
    cases hmatches with
    | absent => exact absurd rfl hu
    | present hr => exact ⟨u, v, rfl, hu, hr, hv⟩
  · rintro ⟨u, v, rfl, hu, hr, hv⟩
    exact ⟨u, v, rfl, hu, .present hr, hv⟩

namespace Placed

-- What is read from the first positions of an expression on is a match and what may follow it.
theorem leads_iff (h : Placed p lo hi r K F L) (t : Text) :
    p.Leads rule F t ↔ p.Takes rule r K t := by
  induction h generalizing t with
  | epsilon =>
      refine ⟨fun ⟨i, hi, _⟩ => absurd hi (Set.notMem_empty i), ?_⟩
      rintro ⟨u, v, rfl, hu, hmatches, -⟩
      cases hmatches
      exact absurd rfl hu
  | bytes hhi hmarks hfollows =>
      subst hhi
      refine leads_bytes (fun b => contains_iff_reads hmarks) hfollows ?_
      rintro i ⟨hlo, hhi⟩ hfinish
      obtain ⟨k, rfl⟩ := Nat.exists_eq_add_of_le hlo
      rw [hmarks k (by omega)] at hfinish
      cases hfinish
  | cat _ _ hr hs => exact leads_cat hr hs
  | alt _ _ hr hs => rw [leads_union, hr, hs, takes_alt]
  | star _ hr => exact leads_star hr
  | plus _ hr => rw [takes_plus]; exact leads_star hr
  | optional _ hr => rw [takes_optional]; exact hr t

-- No position is a dead end.
theorem exists_run (h : Placed p lo hi r K F L) (hproductive : r.IsProductive)
    (hK : ∃ t, p.Leads rule K t) : ∀ i ∈ Set.Ico lo hi, ∃ t, p.Run rule i t := by
  induction h with
  | epsilon => exact fun i hi => absurd (lt_of_le_of_lt hi.1 hi.2) (Nat.lt_irrefl _)
  | bytes hhi hmarks hfollows =>
      intro i hi
      obtain ⟨t, j, hj, hrun⟩ := hK
      obtain ⟨k, rfl⟩ := Nat.exists_eq_add_of_le hi.1
      have hmark := hmarks k (by have := hi.2; omega)
      have hb := (reads_iff hmark).mpr ⟨UInt8.le_refl _, hproductive.2 _ (List.getElem_mem _)⟩
      exact ⟨_, .read hb ((hfollows _ hi j).mpr hj) hrun⟩
  | @cat lo mid hi r s K F G L M _ hplaced hr hs =>
      intro i hi
      by_cases hmid : i < mid
      · obtain ⟨u, hu⟩ := hproductive.2.exists_matches
        obtain ⟨v, hv⟩ := hK
        exact hr hproductive.1 ⟨u ++ v, (leads_passing hplaced.leads_iff).mpr ⟨u, v, rfl, hu, hv⟩⟩
          i ⟨hi.1, hmid⟩
      · exact hs hproductive.2 hK i ⟨Nat.not_lt.mp hmid, hi.2⟩
  | @alt lo mid hi r s K F G L M _ _ hr hs =>
      intro i hi
      by_cases hmid : i < mid
      · exact hr hproductive.1 hK i ⟨hi.1, hmid⟩
      · exact hs hproductive.2 hK i ⟨Nat.not_lt.mp hmid, hi.2⟩
  | star _ hr => exact hr hproductive (hK.imp fun t ht => leads_union.mpr (.inl ht))
  | plus _ hr => exact hr hproductive (hK.imp fun t ht => leads_union.mpr (.inl ht))
  | optional _ hr => exact hr hproductive hK

theorem lo_le (h : Placed p lo hi r K F L) : lo ≤ hi := by
  induction h with
  | epsilon => exact Nat.le_refl _
  | bytes hhi _ _ => omega
  | cat _ _ hr hs => exact Nat.le_trans hr hs
  | alt _ _ hr hs => exact Nat.le_trans hr hs
  | star _ hr => exact hr
  | plus _ hr => exact hr
  | optional _ hr => exact hr

-- The first and the last positions are among those of the expression.
theorem subset (h : Placed p lo hi r K F L) : F ⊆ Set.Ico lo hi ∧ L ⊆ Set.Ico lo hi := by
  induction h with
  | epsilon => exact ⟨Set.empty_subset _, Set.empty_subset _⟩
  | bytes _ _ _ => exact ⟨Set.Subset.rfl, Set.Subset.rfl⟩
  | @cat lo mid hi r s K F G L M h h' hr hs =>
      have hleft : Set.Ico lo mid ⊆ Set.Ico lo hi := Set.Ico_subset_Ico_right h'.lo_le
      have hright : Set.Ico mid hi ⊆ Set.Ico lo hi := Set.Ico_subset_Ico_left h.lo_le
      constructor
      · split
        · exact Set.union_subset (hr.1.trans hleft) (hs.1.trans hright)
        · exact hr.1.trans hleft
      · split
        · exact Set.union_subset (hr.2.trans hleft) (hs.2.trans hright)
        · exact hs.2.trans hright
  | @alt lo mid hi r s K F G L M h h' hr hs =>
      have hleft : Set.Ico lo mid ⊆ Set.Ico lo hi := Set.Ico_subset_Ico_right h'.lo_le
      have hright : Set.Ico mid hi ⊆ Set.Ico lo hi := Set.Ico_subset_Ico_left h.lo_le
      exact ⟨Set.union_subset (hr.1.trans hleft) (hs.1.trans hright),
        Set.union_subset (hr.2.trans hleft) (hs.2.trans hright)⟩
  | star _ hr => exact hr
  | plus _ hr => exact hr
  | optional _ hr => exact hr

-- Only what concerns its own positions matters to an expression.
theorem congr (h : Placed p lo hi r K F L)
    (hmarks : ∀ i ∈ Set.Ico lo hi, p'.marks[i]? = p.marks[i]?)
    (hfollows : ∀ i ∈ Set.Ico lo hi, ∀ j, p'.Follows i j ↔ p.Follows i j) :
    Placed p' lo hi r K F L := by
  induction h with
  | epsilon => exact .epsilon
  | bytes hhi hmark hfollow =>
      refine .bytes hhi (fun k hk => ?_) fun i hi j => ?_
      · rw [hmarks _ ⟨by omega, by omega⟩]
        exact hmark k hk
      · rw [hfollows i hi j]
        exact hfollow i hi j
  | cat h h' hr hs =>
      exact .cat
        (hr (fun i hi => hmarks i (Set.Ico_subset_Ico_right h'.lo_le hi))
          fun i hi => hfollows i (Set.Ico_subset_Ico_right h'.lo_le hi))
        (hs (fun i hi => hmarks i (Set.Ico_subset_Ico_left h.lo_le hi))
          fun i hi => hfollows i (Set.Ico_subset_Ico_left h.lo_le hi))
  | alt h h' hr hs =>
      exact .alt
        (hr (fun i hi => hmarks i (Set.Ico_subset_Ico_right h'.lo_le hi))
          fun i hi => hfollows i (Set.Ico_subset_Ico_right h'.lo_le hi))
        (hs (fun i hi => hmarks i (Set.Ico_subset_Ico_left h.lo_le hi))
          fun i hi => hfollows i (Set.Ico_subset_Ico_left h.lo_le hi))
  | star _ hr => exact .star (hr hmarks hfollows)
  | plus _ hr => exact .plus (hr hmarks hfollows)
  | optional _ hr => exact .optional (hr hmarks hfollows)

-- The last positions of one of two parts are not in the other one.
theorem last_disjoint (h : Placed p lo mid r K F L) (h' : Placed p mid hi s N G M) :
    (∀ i ∈ Set.Ico lo mid, i ∉ M) ∧ ∀ i ∈ Set.Ico mid hi, i ∉ L :=
  ⟨fun _ hi hmem => Nat.not_lt.mpr (h'.subset.2 hmem).1 hi.2,
    fun _ hi hmem => Nat.not_lt.mpr hi.1 (h.subset.2 hmem).2⟩

-- More positions may come next behind the last ones.
theorem linked (h : Placed p lo hi r K F L)
    (hmarks : ∀ i ∈ Set.Ico lo hi, p'.marks[i]? = p.marks[i]?)
    (hfollows : ∀ i ∈ Set.Ico lo hi, ∀ j, p'.Follows i j ↔ p.Follows i j ∨ (i ∈ L ∧ j ∈ N)) :
    Placed p' lo hi r (K ∪ N) F L := by
  induction h with
  | epsilon => exact .epsilon
  | bytes hhi hmark hfollow =>
      refine .bytes hhi (fun k hk => ?_) fun i hi j => ?_
      · rw [hmarks _ ⟨by omega, by omega⟩]
        exact hmark k hk
      · rw [hfollows i hi j, hfollow i hi j, Set.mem_union, and_iff_right hi]
  | @cat lo mid hi r s K F G L M h h' hr hs =>
      have hleft : Set.Ico lo mid ⊆ Set.Ico lo hi := Set.Ico_subset_Ico_right h'.lo_le
      have hright : Set.Ico mid hi ⊆ Set.Ico lo hi := Set.Ico_subset_Ico_left h.lo_le
      obtain ⟨hM, hL⟩ := h.last_disjoint h'
      have hs' := hs (fun i hi => hmarks i (hright hi)) fun i hi j => by
        rw [hfollows i (hright hi) j]
        split
        · rw [Set.mem_union, or_iff_right (hL i hi)]
        · rfl
      by_cases hnull : s.nullable = true
      · rw [if_pos hnull] at hfollows hr
        refine .cat ?_ hs'
        rw [if_pos hnull, ← Set.union_assoc]
        exact hr (fun i hi => hmarks i (hleft hi)) fun i hi j => by
          rw [hfollows i (hleft hi) j, Set.mem_union, or_iff_left (hM i hi)]
      · rw [if_neg hnull] at hfollows h
        refine .cat ?_ hs'
        rw [if_neg hnull]
        exact h.congr (fun i hi => hmarks i (hleft hi)) fun i hi j => by
          rw [hfollows i (hleft hi) j, or_iff_left fun hmem => hM i hi hmem.1]
  | @alt lo mid hi r s K F G L M h h' hr hs =>
      have hleft : Set.Ico lo mid ⊆ Set.Ico lo hi := Set.Ico_subset_Ico_right h'.lo_le
      have hright : Set.Ico mid hi ⊆ Set.Ico lo hi := Set.Ico_subset_Ico_left h.lo_le
      obtain ⟨hM, hL⟩ := h.last_disjoint h'
      have hr' := hr (fun i hi => hmarks i (hleft hi)) fun i hi j => by
        rw [hfollows i (hleft hi) j, Set.mem_union, or_iff_left (hM i hi)]
      have hs' := hs (fun i hi => hmarks i (hright hi)) fun i hi j => by
        rw [hfollows i (hright hi) j, Set.mem_union, or_iff_right (hL i hi)]
      exact .alt hr' hs'
  | star _ hr =>
      refine .star ?_
      rw [Set.union_right_comm]
      exact hr hmarks hfollows
  | plus _ hr =>
      refine .plus ?_
      rw [Set.union_right_comm]
      exact hr hmarks hfollows
  | optional _ hr => exact .optional (hr hmarks hfollows)

end Placed

end Positions

end Lookahead
