import Lookahead.Proofs.FixedPoint
import Lookahead.Proofs.Lexis.Positions

/-!
The positions of expressions, as they are added one after the other, are placed as they should be.
What is added later, leaves them alone, except for what comes next behind the last ones.
-/

namespace Lookahead

namespace IndexSet

variable {s t : IndexSet} {k : Nat} {l : List Nat}

def toSet (s : IndexSet) : Set Nat := {i | i ∈ s}

@[simp] theorem mem_toSet : k ∈ s.toSet ↔ k ∈ s := Iff.rfl

@[simp] theorem toSet_empty : empty.toSet = ∅ :=
  Set.ext fun k => iff_of_false (notMem_empty k) nofun

@[simp] theorem toSet_union : (s.union t).toSet = s.toSet ∪ t.toSet := Set.ext fun _ => mem_union

theorem mem_ofList : k ∈ ofList l ↔ k ∈ l := by
  have hfrom : ∀ s : IndexSet, k ∈ l.foldl insert s ↔ k ∈ s ∨ k ∈ l := by
    induction l with
    | nil => simp
    | cons i l ih =>
        intro s
        rw [List.foldl_cons, ih, mem_insert, List.mem_cons, or_assoc]
        exact or_left_comm
  rw [ofList, hfrom, or_iff_right (notMem_empty k)]

end IndexSet

namespace Positions

variable {p p' p'' : Positions} {i j rule : Nat} {m : Mark} {r s : Regex} {before next : IndexSet}

-- There are followers of every position, and they are positions themselves.
structure IsWellFormed (p : Positions) : Prop where
  aligned : p.followers.size = p.marks.size
  bounded : ∀ i j, p.Follows i j → j < p.marks.size

-- What is there already is left alone.
structure Extends (p p' : Positions) : Prop where
  size_le : p.marks.size ≤ p'.marks.size
  marks_eq : ∀ i < p.marks.size, p'.marks[i]? = p.marks[i]?
  follows_iff : ∀ i < p.marks.size, ∀ j, p'.Follows i j ↔ p.Follows i j

theorem Extends.refl (p : Positions) : Extends p p :=
  ⟨Nat.le_refl _, fun _ _ => rfl, fun _ _ _ => Iff.rfl⟩

theorem Extends.trans (h : Extends p p') (h' : Extends p' p'') : Extends p p'' where
  size_le := Nat.le_trans h.size_le h'.size_le
  marks_eq i hi := (h'.marks_eq i (Nat.lt_of_lt_of_le hi h.size_le)).trans (h.marks_eq i hi)
  follows_iff i hi j :=
    (h'.follows_iff i (Nat.lt_of_lt_of_le hi h.size_le) j).trans (h.follows_iff i hi j)

@[simp] theorem marks_add : (p.add m).marks = p.marks.push m := rfl

@[simp] theorem marks_link : (p.link before next).marks = p.marks := rfl

theorem IsWellFormed.lt_of_follows (h : p.IsWellFormed) (hj : p.Follows i j) :
    i < p.marks.size := by
  obtain ⟨s, hs, -⟩ := hj
  rw [← h.aligned]
  exact (Array.getElem?_eq_some_iff.mp hs).1

-- Nothing comes next behind a new position yet.
theorem IsWellFormed.follows_add (h : p.IsWellFormed) :
    (p.add m).Follows i j ↔ p.Follows i j := by
  by_cases hi : i = p.followers.size
  · have hnew : ¬p.Follows i j := fun hj => by
      have hlt := h.lt_of_follows hj
      rw [← h.aligned] at hlt
      omega
    refine iff_of_false ?_ hnew
    rintro ⟨s, hs, hj⟩
    rw [add, Array.getElem?_push, if_pos hi] at hs
    cases hs
    exact IndexSet.notMem_empty j hj
  · rw [Follows, add, Array.getElem?_push, if_neg hi]
    rfl

theorem IsWellFormed.add (h : p.IsWellFormed) : (p.add m).IsWellFormed where
  aligned := by simp [Positions.add, h.aligned]
  bounded i j hj := by
    rw [marks_add, Array.size_push]
    exact Nat.lt_succ_of_lt (h.bounded i j (h.follows_add.mp hj))

theorem IsWellFormed.extends_add (h : p.IsWellFormed) : Extends p (p.add m) where
  size_le := by simp
  marks_eq i hi := by rw [marks_add, Array.getElem?_push, if_neg (Nat.ne_of_lt hi)]
  follows_iff i hi j := h.follows_add

theorem size_followers_link : (p.link before next).followers.size = p.followers.size := by
  have hfold : ∀ (l : List Nat) (fs : Array IndexSet),
      (l.foldl (fun fs i => fs.modify i (·.union next)) fs).size = fs.size := by
    intro l
    induction l with
    | nil => exact fun _ => rfl
    | cons k l ih => exact fun fs => (ih _).trans Array.size_modify
  exact hfold before.members p.followers

theorem follows_link (hi : i < p.followers.size) :
    (p.link before next).Follows i j ↔ p.Follows i j ∨ (i ∈ before ∧ j ∈ next) := by
  have hfold : ∀ (l : List Nat) (fs : Array IndexSet), i < fs.size →
      ((∃ s ∈ (l.foldl (fun fs i => fs.modify i (·.union next)) fs)[i]?, j ∈ s) ↔
        (∃ s ∈ fs[i]?, j ∈ s) ∨ (i ∈ l ∧ j ∈ next)) := by
    intro l
    induction l with
    | nil => simp
    | cons k l ih =>
        intro fs hfs
        rw [List.foldl_cons, ih _ (by rw [Array.size_modify]; exact hfs), Array.getElem?_modify,
          Array.getElem?_eq_getElem hfs]
        by_cases hk : k = i
        · by_cases hj : j ∈ next <;> simp [hk, hj, IndexSet.mem_union]
        · simp [hk, Ne.symm hk]
  exact hfold before.members p.followers hi

theorem IsWellFormed.link (h : p.IsWellFormed) (hnext : ∀ j ∈ next, j < p.marks.size) :
    (p.link before next).IsWellFormed where
  aligned := size_followers_link.trans h.aligned
  bounded i j hj := by
    obtain ⟨s, hs, -⟩ := id hj
    have hi := (Array.getElem?_eq_some_iff.mp hs).1
    rw [size_followers_link] at hi
    rcases (follows_link hi).mp hj with hj | ⟨-, hj⟩
    · exact h.bounded i j hj
    · exact hnext j hj

-- Links behind new positions leave the old ones alone.
theorem Extends.link (h : Extends p p') (hp' : p'.IsWellFormed)
    (hbefore : ∀ i ∈ before, p.marks.size ≤ i) : Extends p (p'.link before next) where
  size_le := h.size_le
  marks_eq := h.marks_eq
  follows_iff i hi j := by
    rw [follows_link (hp'.aligned ▸ Nat.lt_of_lt_of_le hi h.size_le), h.follows_iff i hi j,
      or_iff_left fun hmem => Nat.not_lt.mpr (hbefore i hmem.1) hi]

def addRanges (p : Positions) (ranges : List (UInt8 × UInt8)) : Positions :=
  ranges.foldl (fun p r => p.add (.bytes r.1.toNat r.2.toNat)) p

-- The positions of a class come one behind the other.
theorem addRanges_spec (ranges : List (UInt8 × UInt8)) (h : p.IsWellFormed) :
    (p.addRanges ranges).IsWellFormed ∧ Extends p (p.addRanges ranges) ∧
      (p.addRanges ranges).marks.size = p.marks.size + ranges.length ∧
      (∀ k (hk : k < ranges.length), (p.addRanges ranges).marks[p.marks.size + k]? =
        some (.bytes ranges[k].1.toNat ranges[k].2.toNat)) ∧
      ∀ i j, (p.addRanges ranges).Follows i j ↔ p.Follows i j := by
  induction ranges generalizing p with
  | nil => exact ⟨h, .refl p, rfl, nofun, fun _ _ => Iff.rfl⟩
  | cons range ranges ih =>
      obtain ⟨hwell, hextends, hsize, hmarks, hfollows⟩ :=
        ih (p := p.add (.bytes range.1.toNat range.2.toNat)) h.add
      rw [marks_add, Array.size_push] at hsize hmarks
      refine ⟨hwell, h.extends_add.trans hextends, ?_, ?_, ?_⟩
      · exact hsize.trans (by rw [List.length_cons]; omega)
      · intro k hk
        cases k with
        | zero =>
            refine (hextends.marks_eq p.marks.size (by simp)).trans ?_
            simp
        | succ k =>
            have hmark := hmarks k (Nat.lt_of_succ_lt_succ hk)
            rw [Nat.add_right_comm] at hmark
            exact hmark
      · exact fun i j => (hfollows i j).trans h.follows_add

-- The outcome of adding an expression: its positions are behind the others, and nothing comes next
-- behind its last ones yet.
structure Adds (p : Positions) (r : Regex) (ends : Ends) (p' : Positions) : Prop where
  wellFormed : p'.IsWellFormed
  extends_ : Extends p p'
  placed : Placed p' p.marks.size p'.marks.size r ∅ ends.first.toSet ends.last.toSet

theorem Adds.lt_size {ends : Ends} (h : Adds p r ends p') :
    (∀ i ∈ ends.first, p.marks.size ≤ i ∧ i < p'.marks.size) ∧
      ∀ i ∈ ends.last, p.marks.size ≤ i ∧ i < p'.marks.size :=
  ⟨fun _ hi => h.placed.subset.1 hi, fun _ hi => h.placed.subset.2 hi⟩

-- An expression that may be repeated is linked with itself.
theorem Adds.repeated {ends : Ends} (h : Adds p r ends p') :
    (p'.link ends.last ends.first).IsWellFormed ∧ Extends p (p'.link ends.last ends.first) ∧
      Placed (p'.link ends.last ends.first) p.marks.size p'.marks.size r (∅ ∪ ends.first.toSet)
        ends.first.toSet ends.last.toSet := by
  refine ⟨h.wellFormed.link fun j hj => (h.lt_size.1 j hj).2,
    h.extends_.link h.wellFormed fun i hi => (h.lt_size.2 i hi).1, ?_⟩
  refine h.placed.linked (fun _ _ => rfl) fun i hi j => ?_
  exact follows_link (h.wellFormed.aligned ▸ hi.2)

-- What has been placed stays where it is.
theorem Adds.kept {ends : Ends} (h : Adds p r ends p') (hextends : Extends p' p'') :
    Placed p'' p.marks.size p'.marks.size r ∅ ends.first.toSet ends.last.toSet :=
  h.placed.congr (fun i hi => hextends.marks_eq i hi.2) fun i hi => hextends.follows_iff i hi.2

theorem Adds.alt {left right : Ends} (hr : Adds p r left p') (hs : Adds p' s right p'') :
    Adds p (.alt r s) ⟨left.first.union right.first, left.last.union right.last⟩ p'' := by
  refine ⟨hs.wellFormed, hr.extends_.trans hs.extends_, ?_⟩
  simp only [IndexSet.toSet_union]
  exact .alt (hr.kept hs.extends_) hs.placed

-- Two expressions one behind the other are linked with each other.
theorem Adds.cat {left right : Ends} (hr : Adds p r left p') (hs : Adds p' s right p'') :
    Adds p (.cat r s)
      ⟨if r.nullable then left.first.union right.first else left.first,
        if s.nullable then left.last.union right.last else right.last⟩
      (p''.link left.last right.first) := by
  refine ⟨hs.wellFormed.link fun j hj => (hs.lt_size.1 j hj).2,
    (hr.extends_.trans hs.extends_).link hs.wellFormed fun i hi => (hr.lt_size.2 i hi).1, ?_⟩
  have hleft : Placed (p''.link left.last right.first) p.marks.size p'.marks.size r
      (∅ ∪ right.first.toSet) left.first.toSet left.last.toSet := by
    refine (hr.kept hs.extends_).linked (fun _ _ => rfl) fun i hi j => follows_link ?_
    exact hs.wellFormed.aligned ▸ Nat.lt_of_lt_of_le hi.2 hs.extends_.size_le
  have hright : Placed (p''.link left.last right.first) p'.marks.size p''.marks.size s
      ∅ right.first.toSet right.last.toSet := by
    refine hs.placed.congr (fun _ _ => rfl) fun i hi j => ?_
    rw [follows_link (hs.wellFormed.aligned ▸ hi.2),
      or_iff_left fun hmem => Nat.not_lt.mpr hi.1 (hr.lt_size.2 i hmem.1).2]
  have hplaced : Placed (p''.link left.last right.first) p.marks.size p''.marks.size (.cat r s) ∅
      (if r.nullable then left.first.toSet ∪ right.first.toSet else left.first.toSet)
      (if s.nullable then left.last.toSet ∪ right.last.toSet else right.last.toSet) := by
    refine .cat ?_ hright
    rw [Set.union_empty, ite_self]
    rw [Set.empty_union] at hleft
    exact hleft
  simpa only [marks_link, apply_ite IndexSet.toSet, IndexSet.toSet_union] using hplaced

theorem place_adds (r : Regex) (h : p.IsWellFormed) : Adds p r (place r p).1 (place r p).2 := by
  induction r generalizing p with
  | epsilon =>
      refine ⟨h, .refl p, ?_⟩
      simp only [place, IndexSet.toSet_empty]
      exact .epsilon
  | bytes c =>
      obtain ⟨hwell, hextends, hsize, hmarks, hfollows⟩ := addRanges_spec c.ranges h
      have hhere : (IndexSet.ofList (List.range' p.marks.size c.ranges.length)).toSet =
          Set.Ico p.marks.size (p.addRanges c.ranges).marks.size := by
        ext i
        rw [hsize, IndexSet.mem_toSet, IndexSet.mem_ofList, List.mem_range'_1, Set.mem_Ico]
      refine ⟨hwell, hextends, ?_⟩
      show Placed (p.addRanges c.ranges) _ (p.addRanges c.ranges).marks.size _ _ _ _
      simp only [place, hhere]
      refine .bytes hsize hmarks fun i hi j => iff_of_false (fun hj => ?_) (Set.notMem_empty j)
      exact Nat.not_lt.mpr hi.1 (h.lt_of_follows ((hfollows i j).mp hj))
  | cat r s ihr ihs => exact (ihr h).cat (ihs (ihr h).wellFormed)
  | alt r s ihr ihs => exact (ihr h).alt (ihs (ihr h).wellFormed)
  | star r ih =>
      obtain ⟨hwell, hextends, hplaced⟩ := (ih h).repeated
      exact ⟨hwell, hextends, .star hplaced⟩
  | plus r ih =>
      obtain ⟨hwell, hextends, hplaced⟩ := (ih h).repeated
      exact ⟨hwell, hextends, .plus hplaced⟩
  | optional r ih => exact ⟨(ih h).wellFormed, (ih h).extends_, .optional (ih h).placed⟩

theorem Extends.run_iff {t : Text} (h : Extends p p') (hp : p.IsWellFormed)
    (hi : i < p.marks.size) : p'.Run rule i t ↔ p.Run rule i t := by
  have hreads : ∀ i < p.marks.size, ∀ b, p'.Reads i b ↔ p.Reads i b := by
    intro i hi b
    rw [Reads, Reads, h.marks_eq i hi]
  induction t generalizing i with
  | nil =>
      constructor
      · rintro ⟨hfinish⟩
        exact .finish (h.marks_eq i hi ▸ hfinish)
      · rintro ⟨hfinish⟩
        exact .finish (h.marks_eq i hi ▸ hfinish)
  | cons b t ih =>
      constructor
      · intro hrun
        cases hrun with
        | @read _ j _ _ hb hj hrun =>
            have hj := (h.follows_iff i hi j).mp hj
            exact .read ((hreads i hi b).mp hb) hj ((ih (hp.bounded i j hj)).mp hrun)
      · intro hrun
        cases hrun with
        | @read _ j _ _ hb hj hrun =>
            exact .read ((hreads i hi b).mpr hb) ((h.follows_iff i hi j).mpr hj)
              ((ih (hp.bounded i j hj)).mpr hrun)

-- At the end of a rule, there is nothing left to read.
theorem run_of_finish {t : Text} {i stop : Nat} (h : p.marks[stop]? = some (.finish i)) :
    p.Run rule stop t ↔ rule = i ∧ t = [] := by
  constructor
  · intro hrun
    cases hrun with
    | finish hfinish =>
        rw [h] at hfinish
        cases hfinish
        exact ⟨rfl, rfl⟩
    | read hb _ _ =>
        obtain ⟨m, hm, hreads⟩ := hb
        rw [h] at hm
        cases hm
        cases hreads
  · rintro ⟨rfl, rfl⟩
    exact .finish h

-- Positions of which those of `first` are the beginnings of a rule.
structure AddsRule (p : Positions) (rule : Nat) (r : Regex) (first : IndexSet) (p' : Positions) :
    Prop where
  wellFormed : p'.IsWellFormed
  extends_ : Extends p p'
  first_lt : ∀ i ∈ first, i < p'.marks.size
  leads_iff : ∀ i t, p'.Leads i first.toSet t ↔ i = rule ∧ r.Matches t
  alive : r.IsProductive → ∀ i < p'.marks.size, p.marks.size ≤ i → ∃ j t, p'.Run j i t

theorem Adds.finished {ends : Ends} {stop : IndexSet} (h : Adds p r ends p') (rule : Nat)
    (hstop : ∀ i, i ∈ stop ↔ i = p'.marks.size) :
    AddsRule p rule r (if r.nullable then ends.first.union stop else ends.first)
      ((p'.add (.finish rule)).link ends.last stop) := by
  have hadd := h.wellFormed.add (m := .finish rule)
  have hextends := h.wellFormed.extends_add (m := .finish rule)
  have hfinish : ((p'.add (.finish rule)).link ends.last stop).marks[p'.marks.size]? =
      some (.finish rule) := by simp
  have hsize : (p'.add (.finish rule)).marks.size = p'.marks.size + 1 := by simp
  generalize p'.add (.finish rule) = p₁ at *
  have hfirst_lt : ∀ i ∈ ends.first, i < p₁.marks.size := fun i hi =>
    hsize ▸ Nat.lt_succ_of_lt (h.lt_size.1 i hi).2
  have hstop_lt : ∀ i ∈ stop, i < p₁.marks.size := fun i hi => by
    rw [hsize, (hstop i).mp hi]
    exact Nat.lt_succ_self _
  have hplaced : Placed (p₁.link ends.last stop) p.marks.size p'.marks.size r stop.toSet
      ends.first.toSet ends.last.toSet := by
    rw [← Set.empty_union stop.toSet]
    refine (h.kept hextends).linked (fun _ _ => rfl) fun i hi j => follows_link ?_
    rw [hadd.aligned, hsize]
    exact Nat.lt_succ_of_lt hi.2
  have hstops : ∀ i t, (p₁.link ends.last stop).Leads i stop.toSet t ↔ i = rule ∧ t = [] := by
    intro i t
    rw [← run_of_finish hfinish]
    exact ⟨fun ⟨j, hj, hrun⟩ => (hstop j).mp hj ▸ hrun, fun hrun => ⟨_, (hstop _).mpr rfl, hrun⟩⟩
  refine ⟨hadd.link hstop_lt,
    (h.extends_.trans hextends).link hadd fun i hi => (h.lt_size.2 i hi).1, ?_, ?_, ?_⟩
  · intro i hi
    split at hi
    · exact (IndexSet.mem_union.mp hi).elim (hfirst_lt i) (hstop_lt i)
    · exact hfirst_lt i hi
  · intro i t
    simp only [apply_ite IndexSet.toSet, IndexSet.toSet_union]
    rw [leads_passing hplaced.leads_iff]
    simp only [hstops]
    constructor
    · rintro ⟨u, v, rfl, hu, rfl, rfl⟩
      exact ⟨rfl, by rwa [List.append_nil]⟩
    · rintro ⟨rfl, ht⟩
      exact ⟨t, [], (List.append_nil t).symm, ht, rfl, rfl⟩
  · intro hproductive i hi hlo
    rw [marks_link, hsize] at hi
    rcases Nat.lt_succ_iff_lt_or_eq.mp hi with hi | rfl
    · exact ⟨rule, hplaced.exists_run hproductive ⟨[], (hstops rule []).mpr ⟨rfl, rfl⟩⟩ i ⟨hlo, hi⟩⟩
    · exact ⟨rule, [], .finish hfinish⟩

theorem placeRule_adds (rule : Nat) (r : Regex) (h : p.IsWellFormed) :
    AddsRule p rule r (placeRule rule r p).1 (placeRule rule r p).2 := by
  refine (place_adds r h).finished rule fun i => ?_
  rw [IndexSet.mem_insert, or_iff_left (IndexSet.notMem_empty i)]

-- From the positions of `start` on, each rule is read as far as its expression matches.
structure Recognizes (p : Positions) (start : IndexSet) (rs : List Regex) : Prop where
  wellFormed : p.IsWellFormed
  start_lt : ∀ i ∈ start, i < p.marks.size
  leads_iff : ∀ rule t, p.Leads rule start.toSet t ↔ ∃ r, rs[rule]? = some r ∧ r.Matches t
  alive : (∀ r ∈ rs, r.IsProductive) → ∀ i < p.marks.size, ∃ rule t, p.Run rule i t

variable {rs : List Regex} {start first : IndexSet}

theorem Recognizes.add (h : Recognizes p start rs) (hadds : AddsRule p rs.length r first p') :
    Recognizes p' (start.union first) (rs ++ [r]) where
  wellFormed := hadds.wellFormed
  start_lt i hi := (IndexSet.mem_union.mp hi).elim
    (fun hi => Nat.lt_of_lt_of_le (h.start_lt i hi) hadds.extends_.size_le) (hadds.first_lt i)
  leads_iff rule t := by
    have hstart : p'.Leads rule start.toSet t ↔ p.Leads rule start.toSet t :=
      exists_congr fun i => and_congr_right fun hi =>
        hadds.extends_.run_iff h.wellFormed (h.start_lt i hi)
    rw [IndexSet.toSet_union, leads_union, hstart, h.leads_iff, hadds.leads_iff,
      List.getElem?_append]
    split
    · next hlt => exact or_iff_left fun ⟨heq, _⟩ => Nat.ne_of_lt hlt heq
    · next hge =>
      rw [List.getElem?_eq_none (Nat.not_lt.mp hge), or_iff_right (by rintro ⟨_, h, -⟩; cases h)]
      constructor
      · rintro ⟨rfl, ht⟩
        exact ⟨r, by simp, ht⟩
      · rintro ⟨r', hr', ht⟩
        obtain ⟨hrule, heq⟩ := List.getElem?_eq_some_iff.mp hr'
        rw [List.length_singleton] at hrule
        obtain rfl : r = r' := by simpa using heq
        exact ⟨by omega, ht⟩
  alive hproductive i hi := by
    by_cases hlt : i < p.marks.size
    · obtain ⟨rule, t, hrun⟩ :=
        h.alive (fun s hs => hproductive s (List.mem_append_left _ hs)) i hlt
      exact ⟨rule, t, (hadds.extends_.run_iff h.wellFormed hlt).mpr hrun⟩
    · exact hadds.alive (hproductive r (by simp)) i hi (Nat.not_lt.mp hlt)

-- The rules are placed one behind the other.
def placeNext (state : IndexSet × Positions) (entry : Regex × Nat) : IndexSet × Positions :=
  (state.1.union (placeRule entry.2 entry.1 state.2).1, (placeRule entry.2 entry.1 state.2).2)

theorem ofRegexes_eq (rs : List Regex) :
    ofRegexes rs = rs.zipIdx.foldl placeNext (.empty, .empty) := rfl

theorem recognizes_empty : Recognizes empty .empty [] where
  wellFormed := by
    refine ⟨rfl, ?_⟩
    rintro i j ⟨s, hs, -⟩
    simp [empty] at hs
  start_lt i hi := absurd hi (IndexSet.notMem_empty i)
  leads_iff rule t := by
    constructor
    · rintro ⟨i, hi, -⟩
      exact absurd hi (IndexSet.notMem_empty i)
    · rintro ⟨r, hr, -⟩
      cases hr
  alive _ i hi := absurd hi (Nat.not_lt_zero i)

theorem Recognizes.foldl {front : List Regex} (state : IndexSet × Positions)
    (h : Recognizes state.2 state.1 front) (rs : List Regex) :
    Recognizes ((rs.zipIdx front.length).foldl placeNext state).2
      ((rs.zipIdx front.length).foldl placeNext state).1 (front ++ rs) := by
  induction rs generalizing front state with
  | nil => exact (List.append_nil front).symm ▸ h
  | cons r rs ih =>
      have hadd : Recognizes (placeNext state (r, front.length)).2
          (placeNext state (r, front.length)).1 (front ++ [r]) :=
        h.add (placeRule_adds front.length r h.wellFormed)
      have hrest := ih _ hadd
      rw [List.length_append, List.append_assoc] at hrest
      exact hrest

theorem ofRegexes_recognizes (rs : List Regex) :
    Recognizes (ofRegexes rs).2 (ofRegexes rs).1 rs := by
  rw [ofRegexes_eq]
  exact Recognizes.foldl (.empty, .empty) recognizes_empty rs

end Positions

end Lookahead
