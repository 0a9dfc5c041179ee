import Lookahead.Analysis
import Lookahead.Proofs.FixedPoint

/-!
Lists of sets of indices that grow from pass to pass.
-/

namespace Lookahead.Analysis

variable {sets : List IndexSet}

-- Adding to one of the sets.
theorem mem_setOf_modify {f : IndexSet → IndexSet} {k : Nat} {P : Prop}
    (hf : ∀ s : IndexSet, k ∈ f s ↔ k ∈ s ∨ P) {i j : Nat} :
    k ∈ setOf (sets.modify i f) j ↔ k ∈ setOf sets j ∨ (i = j ∧ j < sets.length ∧ P) := by
  simp only [setOf, List.getD_eq_getElem?_getD, List.getElem?_modify]
  by_cases hij : i = j
  · by_cases hj : j < sets.length
    · simp [hij, hj, hf]
    · simp [hij, hj]
  · simp [hij]

theorem mem_setOf_modify_union {t : IndexSet} {i j k : Nat} :
    k ∈ setOf (sets.modify i fun s => s.union t) j ↔
      k ∈ setOf sets j ∨ (i = j ∧ j < sets.length ∧ k ∈ t) :=
  mem_setOf_modify fun _ => IndexSet.mem_union

theorem mem_setOf_modify_insert {i j k l : Nat} :
    k ∈ setOf (sets.modify i fun s => s.insert l) j ↔
      k ∈ setOf sets j ∨ (i = j ∧ j < sets.length ∧ k = l) :=
  mem_setOf_modify fun _ => IndexSet.mem_insert.trans or_comm

@[simp] theorem notMem_setOf_replicate (n i k : Nat) :
    k ∉ setOf (List.replicate n .empty) i := by
  simp only [setOf, List.getD_eq_getElem?_getD, List.getElem?_replicate]
  split <;> simp

theorem mem_setOf_of_grows {sets' : List IndexSet} (h : Grows sets sets') {i k : Nat}
    (hk : k ∈ setOf sets i) : k ∈ setOf sets' i := by
  induction h generalizing i with
  | nil => exact hk
  | cons hab _ ih =>
      cases i with
      | zero => exact hab k hk
      | succ i => exact ih hk

theorem grows_modify_union (sets : List IndexSet) (i : Nat) (t : IndexSet) :
    Grows sets (sets.modify i fun s => s.union t) :=
  grows_modify (fun s => s.le_union t) sets i

theorem grows_modify_insert (sets : List IndexSet) (i k : Nat) :
    Grows sets (sets.modify i fun s => s.insert k) :=
  grows_modify (fun s => s.le_insert k) sets i

-- Every member of every set is justified.
def SetsSound (Sound : Nat → Nat → Prop) (sets : List IndexSet) : Prop :=
  ∀ i k, k ∈ setOf sets i → Sound i k

-- Passes over sets with bounded members end with justified sets that no step changes.
theorem fixedPoint_sets {ρ : Type} (step : List IndexSet → ρ → List IndexSet) {items : List ρ}
    {Sound : Nat → Nat → Prop} {n : Nat} (bound : Nat) (hbound : ∀ i k, Sound i k → k < bound)
    (hgrow : ∀ sets r, Grows sets (step sets r))
    (hstep : ∀ sets, ∀ r ∈ items, SetsSound Sound sets → SetsSound Sound (step sets r))
    (hlength : sets.length = n) (hsets : SetsSound Sound sets) :
    let z := (fixedPoint (fun sets => items.foldl step sets) (n * bound + 1) sets).1
    z.length = n ∧ SetsSound Sound z ∧ ∀ r ∈ items, step z r = z := by
  have h := fixedPoint_foldl step items n bound
    (fun sets => sets.length = n ∧ SetsSound Sound sets) IndexSet.size_strictMono hgrow
    (fun sets r hr hs => ⟨(hgrow sets r).length_eq ▸ hs.1, hstep sets r hr hs.2⟩)
    (fun _ hs => hs.1)
    (fun sets hs s hm => by
      obtain ⟨i, hi⟩ := List.mem_iff_getElem?.mp hm
      apply IndexSet.size_le
      intro k hk
      apply hbound i
      apply hs.2
      rw [setOf, List.getD_eq_getElem?_getD, hi]
      exact hk)
    ⟨hlength, hsets⟩
  exact ⟨h.1.1, h.1.2, h.2⟩

end Lookahead.Analysis
