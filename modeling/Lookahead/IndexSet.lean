/-!
Finite sets of indices, kept as strictly ascending lists.
-/

namespace Lookahead

-- Inserts into an ascending list, unless the index is already there.
def insertAscending (i : Nat) : List Nat → List Nat
  | [] => [i]
  | j :: rest =>
    if i < j then i :: j :: rest
    else if i = j then j :: rest
    else j :: insertAscending i rest

theorem mem_insertAscending {i k : Nat} {l : List Nat} :
    k ∈ insertAscending i l ↔ k = i ∨ k ∈ l := by
  induction l with
  | nil => simp [insertAscending]
  | cons j rest ih =>
    unfold insertAscending
    split
    · simp
    · split
      · next h => subst h; simp
      · simp only [List.mem_cons, ih]
        exact or_left_comm

theorem pairwise_insertAscending (i : Nat) {l : List Nat} (h : l.Pairwise (· < ·)) :
    (insertAscending i l).Pairwise (· < ·) := by
  induction l with
  | nil => simp [insertAscending]
  | cons j rest ih =>
    obtain ⟨hj, hrest⟩ := List.pairwise_cons.mp h
    unfold insertAscending
    split
    · next hij =>
      refine List.pairwise_cons.mpr ⟨fun k hk => ?_, h⟩
      cases List.mem_cons.mp hk with
      | inl hkj => omega
      | inr hk => exact Nat.lt_trans hij (hj k hk)
    · split
      · exact h
      · next hij hne =>
        refine List.pairwise_cons.mpr ⟨fun k hk => ?_, ih hrest⟩
        cases mem_insertAscending.mp hk with
        | inl hki => omega
        | inr hk => exact hj k hk

structure IndexSet where
  members : List Nat
  ascending : members.Pairwise (· < ·)
deriving DecidableEq

namespace IndexSet

def empty : IndexSet := ⟨[], List.Pairwise.nil⟩

instance : Inhabited IndexSet := ⟨empty⟩

def contains (s : IndexSet) (i : Nat) : Bool := s.members.contains i

def insert (s : IndexSet) (i : Nat) : IndexSet :=
  ⟨insertAscending i s.members, pairwise_insertAscending i s.ascending⟩

def union (s t : IndexSet) : IndexSet := t.members.foldl insert s

def ofList (l : List Nat) : IndexSet := l.foldl insert empty

-- Smaller sets come first. Among sets of one size, the first difference decides.
def precedes (s t : IndexSet) : Bool :=
  s.members.length < t.members.length ||
    (s.members.length = t.members.length && !t.members.lex s.members)

instance : Membership Nat IndexSet := ⟨fun s i => i ∈ s.members⟩

theorem mem_insert {s : IndexSet} {i k : Nat} : k ∈ s.insert i ↔ k = i ∨ k ∈ s :=
  mem_insertAscending

theorem mem_union {s t : IndexSet} {k : Nat} : k ∈ s.union t ↔ k ∈ s ∨ k ∈ t := by
  have fold : ∀ (l : List Nat) (s : IndexSet), k ∈ l.foldl insert s ↔ k ∈ s ∨ k ∈ l := by
    intro l
    induction l with
    | nil => simp
    | cons i rest ih =>
      intro s
      rw [List.foldl_cons, ih, mem_insert, List.mem_cons]
      rw [or_assoc]
      exact or_left_comm
  exact fold t.members s

end IndexSet

end Lookahead
