import Lookahead.FixedPoint
import Lookahead.IndexSet
import Mathlib.Algebra.GroupWithZero.Nat
import Mathlib.Data.List.Forall2
import Mathlib.Data.List.Perm.Subperm
import Mathlib.Order.Monotone.Basic

/-!
Fixed points of passes that only let things grow. A pass takes some steps one after the other,
each of which may enlarge items of a list. If the items cannot grow beyond a bound, repeating the
pass comes to an end, and then no single step adds anything.
-/

namespace Lookahead

section Growth

variable {β : Type} [PartialOrder β]

-- Every item of the first list is at most the one at its place in the second.
def Grows (x y : List β) : Prop := List.Forall₂ (· ≤ ·) x y

theorem Grows.refl (x : List β) : Grows x x := by
  induction x with
  | nil => exact .nil
  | cons a x ih => exact .cons le_rfl ih

theorem Grows.trans {x y z : List β} (h₁ : Grows x y) (h₂ : Grows y z) : Grows x z := by
  induction h₁ generalizing z with
  | nil => exact h₂
  | cons hab _ ih =>
      cases h₂ with
      | cons hbc h₂ => exact .cons (hab.trans hbc) (ih h₂)

theorem Grows.antisymm {x y : List β} (h₁ : Grows x y) (h₂ : Grows y x) : x = y := by
  induction h₁ with
  | nil => rfl
  | cons hab _ ih =>
      cases h₂ with
      | cons hba h₂ => rw [le_antisymm hab hba, ih h₂]

theorem grows_modify {f : β → β} (hf : ∀ a, a ≤ f a) (x : List β) (i : Nat) :
    Grows x (x.modify i f) := by
  induction x generalizing i with
  | nil =>
      rw [List.modify_nil]
      exact .nil
  | cons a x ih =>
      cases i with
      | zero =>
          rw [List.modify_zero_cons]
          exact .cons (hf a) (Grows.refl x)
      | succ i =>
          rw [List.modify_succ_cons]
          exact .cons le_rfl (ih i)

def totalSize (size : β → Nat) (x : List β) : Nat := (x.map size).sum

omit [PartialOrder β] in
theorem totalSize_le {size : β → Nat} {bound : Nat} {x : List β} (h : ∀ a ∈ x, size a ≤ bound) :
    totalSize size x ≤ x.length * bound := by
  induction x with
  | nil => simp [totalSize]
  | cons a x ih =>
      have ha := h a (by simp)
      have hx := ih (fun b hb => h b (by simp [hb]))
      simp only [totalSize, List.map_cons, List.sum_cons, List.length_cons, Nat.succ_mul] at hx ⊢
      omega

theorem totalSize_mono {size : β → Nat} (hsize : StrictMono size) {x y : List β}
    (h : Grows x y) : totalSize size x ≤ totalSize size y := by
  induction h with
  | nil => exact Nat.le_refl _
  | cons hab _ ih =>
      have ha := hsize.monotone hab
      simp only [totalSize, List.map_cons, List.sum_cons] at ih ⊢
      omega

-- Growth that changes something shows in the total size.
theorem totalSize_lt {size : β → Nat} (hsize : StrictMono size) {x y : List β}
    (h : Grows x y) (hne : x ≠ y) : totalSize size x < totalSize size y := by
  induction h with
  | nil => exact absurd rfl hne
  | @cons a b x y hab hxy ih =>
      have hm := totalSize_mono hsize hxy
      rcases eq_or_lt_of_le hab with rfl | hlt
      · have ht := ih (fun he => hne (by rw [he]))
        simp only [totalSize, List.map_cons, List.sum_cons] at ht ⊢
        omega
      · have ha := hsize hlt
        simp only [totalSize, List.map_cons, List.sum_cons] at hm ⊢
        omega

variable {ρ : Type} {step : List β → ρ → List β} {items : List ρ} {x : List β}

theorem grows_foldl (hgrow : ∀ x r, Grows x (step x r)) (items : List ρ) (x : List β) :
    Grows x (items.foldl step x) := by
  induction items generalizing x with
  | nil => exact Grows.refl x
  | cons r rest ih => exact (hgrow x r).trans (ih _)

-- A pass that changes nothing takes steps that change nothing.
theorem step_eq_of_foldl_eq (hgrow : ∀ x r, Grows x (step x r))
    (h : items.foldl step x = x) : ∀ r ∈ items, step x r = x := by
  induction items with
  | nil => simp
  | cons r rest ih =>
      have hr : step x r = x := by
        have hback := grows_foldl hgrow rest (step x r)
        rw [← List.foldl_cons, h] at hback
        exact (hback.antisymm (hgrow x r))
      rw [List.foldl_cons, hr] at h
      intro r' hm
      rcases List.mem_cons.mp hm with rfl | hm
      · exact hr
      · exact ih h r' hm

omit [PartialOrder β] in
theorem foldl_invariant {Inv : List β → Prop} (hstep : ∀ x, ∀ r ∈ items, Inv x → Inv (step x r))
    (hx : Inv x) : Inv (items.foldl step x) := by
  induction items generalizing x with
  | nil => exact hx
  | cons r rest ih =>
      exact ih (fun y r' hm => hstep y r' (List.mem_cons_of_mem _ hm))
        (hstep x r List.mem_cons_self hx)

end Growth

theorem fixedPoint_invariant {α : Type} [DecidableEq α] {pass : α → α} {Inv : α → Prop}
    (hpass : ∀ x, Inv x → Inv (pass x)) (fuel : Nat) {x : α} (hx : Inv x) :
    Inv (fixedPoint pass fuel x).1 := by
  induction fuel generalizing x with
  | zero => exact hx
  | succ fuel ih =>
      simp only [fixedPoint]
      split
      · exact hx
      · exact ih (hpass x hx)

-- What the passes start with is not lost.
theorem grows_fixedPoint {β ρ : Type} [PartialOrder β] [DecidableEq β]
    {step : List β → ρ → List β} (hgrow : ∀ x r, Grows x (step x r)) (items : List ρ) (fuel : Nat)
    (x : List β) : Grows x (fixedPoint (fun x => items.foldl step x) fuel x).1 :=
  fixedPoint_invariant (fun y hy => hy.trans (grows_foldl hgrow items y)) fuel (Grows.refl x)

-- Every pass but the last one adds to a weight that cannot exceed a bound.
theorem fixedPoint_stable {α : Type} [DecidableEq α] {pass : α → α} {Inv : α → Prop}
    (weight : α → Nat) (bound : Nat) (hpass : ∀ x, Inv x → Inv (pass x))
    (hgrow : ∀ x, pass x ≠ x → weight x < weight (pass x))
    (hbound : ∀ x, Inv x → weight x ≤ bound) (fuel : Nat) {x : α} (hx : Inv x)
    (hfuel : bound < fuel + weight x) :
    pass (fixedPoint pass fuel x).1 = (fixedPoint pass fuel x).1 := by
  induction fuel generalizing x with
  | zero =>
      have hb := hbound x hx
      omega
  | succ fuel ih =>
      simp only [fixedPoint]
      split
      · assumption
      · rename_i hne
        have hg := hgrow x hne
        exact ih (hpass x hx) (by omega)

-- The lists reached have the invariant, and no step changes them any more.
theorem fixedPoint_foldl {β ρ : Type} [PartialOrder β] [DecidableEq β]
    (step : List β → ρ → List β) (items : List ρ) {size : β → Nat} (n bound : Nat)
    (Inv : List β → Prop) (hsize : StrictMono size) (hgrow : ∀ x r, Grows x (step x r))
    (hstep : ∀ x, ∀ r ∈ items, Inv x → Inv (step x r)) (hlength : ∀ x, Inv x → x.length = n)
    (hbound : ∀ x, Inv x → ∀ a ∈ x, size a ≤ bound) {x : List β} (hx : Inv x) :
    let z := (fixedPoint (fun x => items.foldl step x) (n * bound + 1) x).1
    Inv z ∧ ∀ r ∈ items, step z r = z := by
  have hpass : ∀ x, Inv x → Inv (items.foldl step x) := fun x hx => foldl_invariant hstep hx
  refine ⟨fixedPoint_invariant hpass _ hx, step_eq_of_foldl_eq hgrow ?_⟩
  apply fixedPoint_stable (totalSize size) (n * bound) hpass
  · exact fun x hne => totalSize_lt hsize (grows_foldl hgrow items x) (Ne.symm hne)
  · exact fun x hx => hlength x hx ▸ totalSize_le (hbound x hx)
  · exact hx
  · omega

namespace IndexSet

theorem nodup (s : IndexSet) : s.members.Nodup := s.ascending.imp (fun h => Nat.ne_of_lt h)

theorem mem_members {s : IndexSet} {k : Nat} : k ∈ s.members ↔ k ∈ s := Iff.rfl

@[simp] theorem notMem_empty (k : Nat) : k ∉ empty := List.not_mem_nil

theorem contains_iff {s : IndexSet} {k : Nat} : s.contains k = true ↔ k ∈ s := by
  simp [contains, mem_members]

-- A set is known by its members.
theorem ext {s t : IndexSet} (h : ∀ k, k ∈ s ↔ k ∈ t) : s = t := by
  have hp : s.members.Perm t.members := (List.perm_ext_iff_of_nodup s.nodup t.nodup).mpr h
  have he : s.members = t.members :=
    hp.eq_of_pairwise (fun a b _ _ hab hba => absurd hab (Nat.lt_asymm hba)) s.ascending t.ascending
  cases s
  cases t
  simpa using he

instance : PartialOrder IndexSet where
  le s t := ∀ k ∈ s, k ∈ t
  le_refl _ _ h := h
  le_trans _ _ _ h₁ h₂ k h := h₂ k (h₁ k h)
  le_antisymm _ _ h₁ h₂ := ext fun k => ⟨h₁ k, h₂ k⟩

theorem le_union (s t : IndexSet) : s ≤ s.union t := fun _ h => mem_union.mpr (.inl h)

theorem le_insert (s : IndexSet) (i : Nat) : s ≤ s.insert i := fun _ h => mem_insert.mpr (.inr h)

def size (s : IndexSet) : Nat := s.members.length

theorem size_le {s : IndexSet} {bound : Nat} (h : ∀ k ∈ s, k < bound) : s.size ≤ bound := by
  have hsub : s.members ⊆ List.range bound := fun k hk => List.mem_range.mpr (h k hk)
  have hs := List.subperm_of_subset s.nodup hsub
  simpa [size] using hs.length_le

theorem size_strictMono : StrictMono size := by
  intro s t h
  have hs := List.subperm_of_subset s.nodup h.le
  apply lt_of_le_of_ne hs.length_le
  intro he
  have hp := hs.perm_of_length_le (Nat.le_of_eq he.symm)
  exact h.not_ge fun k hk => hp.mem_iff.mpr hk

end IndexSet

end Lookahead
