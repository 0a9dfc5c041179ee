import Lookahead.Lexis.Automaton
import Lookahead.Proofs.Lexis.Placement
import Mathlib.Data.Finset.Powerset

/-!
The automaton of sets of positions, before states are merged: it goes on with a text as long as
the text leads from the first positions to others, and accepts the first rule that ends there.
-/

namespace Lookahead

namespace Positions

variable {p : Positions} {s : IndexSet} {rule j n : Nat} {b : UInt8} {t u : Text}

theorem mem_successors : j ∈ p.successors s n ↔
    ∃ i ∈ s, (∃ m ∈ p.marks[i]?, m.reads n = true) ∧ p.Follows i j := by
  refine Iff.trans ?_ (or_iff_right (IndexSet.notMem_empty j))
  show _ ↔ _ ∨ ∃ i ∈ s.members, _
  unfold successors
  -- The positions found so far do not have to be empty.
  generalize IndexSet.empty = known
  induction s.members generalizing known with
  | nil => simp
  | cons i l ih =>
      rw [List.foldl_cons, ih, List.exists_mem_cons_iff, ← or_assoc]
      refine or_congr_left ?_
      cases hm : p.marks[i]? with
      | none => simp
      | some m =>
          cases hnext : p.followers[i]? with
          | none => simp [Follows, hnext]
          | some next =>
              by_cases hreads : m.reads n = true <;>
                simp [Follows, hnext, hreads, IndexSet.mem_union]

theorem leads_successors :
    p.Leads rule (p.successors s b.toNat).toSet t ↔ p.Leads rule s.toSet (b :: t) := by
  constructor
  · rintro ⟨j, hj, hrun⟩
    obtain ⟨i, hi, hb, hfollows⟩ := mem_successors.mp hj
    exact ⟨i, hi, .read hb hfollows hrun⟩
  · rintro ⟨i, hi, hrun⟩
    cases hrun with
    | @read _ j _ _ hb hfollows hrun =>
        exact ⟨j, mem_successors.mpr ⟨i, hi, hb, hfollows⟩, hrun⟩

-- The positions one of which is next behind a text.
def reached (p : Positions) (s : IndexSet) (t : Text) : IndexSet :=
  t.foldl (fun s b => p.successors s b.toNat) s

theorem leads_reached : p.Leads rule (p.reached s t).toSet u ↔ p.Leads rule s.toSet (t ++ u) := by
  induction t generalizing s with
  | nil => rfl
  | cons b t ih => exact ih.trans leads_successors

theorem reached_empty (t : Text) : p.reached .empty t = .empty := by
  induction t with
  | nil => rfl
  | cons b t ih => exact ih

theorem reached_append : p.reached s (t ++ u) = p.reached (p.reached s t) u := List.foldl_append

theorem mem_finishes : rule ∈ s.members.filterMap (fun i => p.marks[i]?.bind Mark.rule?) ↔
    p.Leads rule s.toSet [] := by
  rw [List.mem_filterMap]
  constructor
  · rintro ⟨i, hi, hrule⟩
    obtain ⟨m, hm, hrule⟩ := Option.bind_eq_some_iff.mp hrule
    cases m with
    | bytes low high => cases hrule
    | finish rule' =>
        cases hrule
        exact ⟨i, hi, .finish hm⟩
  · rintro ⟨i, hi, hrun⟩
    cases hrun with
    | finish hm => exact ⟨i, hi, by rw [hm]; rfl⟩

-- The first rule that ends is the one with the lowest number.
theorem ended?_eq_some : p.ended? s = some rule ↔
    p.Leads rule s.toSet [] ∧ ∀ rule', p.Leads rule' s.toSet [] → rule ≤ rule' := by
  rw [ended?, List.min?_eq_some_iff]
  simp only [mem_finishes]

end Positions

theorem nodup_eraseDups {α : Type} [DecidableEq α] (l : List α) : l.eraseDups.Nodup := by
  induction hn : l.length using Nat.strongRecOn generalizing l with
  | ind n ih =>
      cases l with
      | nil => exact List.nodup_nil
      | cons a l =>
          rw [List.eraseDups_cons, List.nodup_cons]
          refine ⟨fun hmem => ?_, ih _ ?_ _ rfl⟩
          · have ha := (List.mem_filter.mp (List.mem_eraseDups.mp hmem)).2
            simp at ha
          · rw [← hn, List.length_cons]
            exact Nat.lt_succ_of_le (List.length_filter_le _ _)

namespace IndexSet

-- There are no more sets of numbers below a bound than subsets of a range.
theorem length_le_of_nodup {sets : List IndexSet} {n : Nat} (hnodup : sets.Nodup)
    (hbound : ∀ s ∈ sets, ∀ i ∈ s, i < n) : sets.length ≤ 2 ^ n := by
  have hinjective : Function.Injective fun s : IndexSet => s.members.toFinset := by
    intro s t heq
    refine ext fun k => ?_
    rw [← mem_members, ← mem_members, ← List.mem_toFinset, ← List.mem_toFinset]
    exact (Finset.ext_iff.mp heq) k
  have hsubset : (sets.map fun s => s.members.toFinset).toFinset ⊆ (Finset.range n).powerset := by
    intro x hx
    obtain ⟨s, hs, rfl⟩ := List.mem_map.mp (List.mem_toFinset.mp hx)
    rw [Finset.mem_powerset]
    exact fun i hi => Finset.mem_range.mpr (hbound s hs i (List.mem_toFinset.mp hi))
  have hcard := Finset.card_le_card hsubset
  rwa [List.toFinset_card_of_nodup (hnodup.map hinjective), List.length_map, Finset.card_powerset,
    Finset.card_range] at hcard

end IndexSet

namespace Automaton

variable {p : Positions} {cuts : List Nat} {pending known : List IndexSet} {first s : IndexSet}
variable {n fuel : Nat}

-- A state leads nowhere else.
def IsClosedAt (p : Positions) (cuts : List Nat) (known : List IndexSet) (s : IndexSet) : Prop :=
  ∀ b ∈ cuts, p.successors s b ≠ .empty → p.successors s b ∈ known

-- All known sets are pending or done, and there is fuel for all that may be found.
structure Explores (p : Positions) (cuts : List Nat) (n fuel : Nat)
    (pending known : List IndexSet) : Prop where
  nodup : known.Nodup
  nonempty : ∀ s ∈ known, s ≠ .empty
  bounded : ∀ s ∈ known, ∀ i ∈ s, i < n
  done : ∀ s ∈ known, s ∈ pending ∨ IsClosedAt p cuts known s
  enough : 2 ^ n + pending.length ≤ fuel + known.length

theorem Explores.step (hp : p.IsWellFormed)
    (h : Explores p cuts p.marks.size (fuel + 1) (s :: pending) known) :
    let fresh := ((cuts.map (p.successors s)).eraseDups).filter
      fun t => t != .empty && !known.contains t
    Explores p cuts p.marks.size fuel (fresh ++ pending) (fresh ++ known) := by
  intro fresh
  have hfresh : ∀ t, t ∈ fresh ↔ (∃ b ∈ cuts, p.successors s b = t) ∧ t ≠ .empty ∧ t ∉ known := by
    intro t
    simp [fresh]
  have hclosed : ∀ t, IsClosedAt p cuts known t → IsClosedAt p cuts (fresh ++ known) t :=
    fun t ht b hb hne => List.mem_append_right _ (ht b hb hne)
  refine ⟨?_, ?_, ?_, ?_, ?_⟩
  · refine List.nodup_append.mpr ⟨(nodup_eraseDups _).filter _, h.nodup, ?_⟩
    rintro t ht t' ht' rfl
    exact ((hfresh t).mp ht).2.2 ht'
  · intro t ht
    exact (List.mem_append.mp ht).elim (fun ht => ((hfresh t).mp ht).2.1) (h.nonempty t)
  · intro t ht
    rcases List.mem_append.mp ht with ht | ht
    · obtain ⟨⟨b, -, rfl⟩, -⟩ := (hfresh t).mp ht
      intro j hj
      obtain ⟨i, -, -, hfollows⟩ := Positions.mem_successors.mp hj
      exact hp.bounded i j hfollows
    · exact h.bounded t ht
  · intro t ht
    rcases List.mem_append.mp ht with ht | ht
    · exact .inl (List.mem_append_left _ ht)
    · rcases h.done t ht with hpending | hdone
      · rcases List.mem_cons.mp hpending with rfl | hpending
        · refine .inr fun b hb hne => ?_
          by_cases hknown : p.successors t b ∈ known
          · exact List.mem_append_right _ hknown
          · exact List.mem_append_left _ ((hfresh _).mpr ⟨⟨b, hb, rfl⟩, hne, hknown⟩)
        · exact .inl (List.mem_append_right _ hpending)
      · exact .inr (hclosed t hdone)
  · have henough := h.enough
    simp only [List.length_cons, List.length_append] at henough ⊢
    omega

theorem explore_spec (hp : p.IsWellFormed)
    (h : Explores p cuts p.marks.size fuel pending known) :
    (∀ s ∈ known, s ∈ explore p cuts fuel pending known) ∧
      ∀ s ∈ explore p cuts fuel pending known,
        s ≠ .empty ∧ IsClosedAt p cuts (explore p cuts fuel pending known) s := by
  fun_induction explore p cuts fuel pending known with
  | case1 pending known =>
      have hlength := IndexSet.length_le_of_nodup h.nodup h.bounded
      have henough := h.enough
      obtain rfl : pending = [] := List.length_eq_zero_iff.mp (by omega)
      exact ⟨fun s hs => hs, fun s hs => ⟨h.nonempty s hs, (h.done s hs).resolve_left nofun⟩⟩
  | case2 fuel known hfuel =>
      exact ⟨fun s hs => hs, fun s hs => ⟨h.nonempty s hs, (h.done s hs).resolve_left nofun⟩⟩
  | case3 fuel s pending known reached fresh ih =>
      obtain ⟨hknown, hclosed⟩ := ih (h.step hp)
      exact ⟨fun t ht => hknown t (List.mem_append_right _ ht), hclosed⟩

-- In an ascending list, the members up to a bound are in front.
theorem exists_cut {l : List Nat} (hl : l.Pairwise (· < ·)) {b : Nat} (h : ∃ c ∈ l, c ≤ b) :
    ∃ c, l[l.countP (· ≤ b) - 1]? = some c ∧ c ≤ b ∧ ∀ c' ∈ l, c' ≤ b → c' ≤ c := by
  induction l with
  | nil =>
      obtain ⟨c, hc, -⟩ := h
      cases hc
  | cons a l ih =>
      obtain ⟨ha, hl⟩ := List.pairwise_cons.mp hl
      have hab : a ≤ b := by
        obtain ⟨c, hc, hcb⟩ := h
        rcases List.mem_cons.mp hc with rfl | hc
        · exact hcb
        · exact Nat.le_trans (Nat.le_of_lt (ha c hc)) hcb
      rw [List.countP_cons_of_pos (by simpa using hab), Nat.add_sub_cancel]
      by_cases hrest : ∃ c ∈ l, c ≤ b
      · obtain ⟨c, hc, hcb, hmax⟩ := ih hl hrest
        have hpos : 0 < l.countP (· ≤ b) := by
          obtain ⟨c, hc, hcb⟩ := hrest
          exact List.countP_pos_iff.mpr ⟨c, hc, by simpa using hcb⟩
        refine ⟨c, ?_, hcb, ?_⟩
        · rw [← hc, List.getElem?_cons, if_neg (by omega)]
        · intro c' hc' hle
          rcases List.mem_cons.mp hc' with rfl | hc'
          · exact Nat.le_of_lt (ha c (List.mem_of_getElem? hc))
          · exact hmax c' hc' hle
      · have hzero : l.countP (· ≤ b) = 0 :=
          List.countP_eq_zero.mpr fun c hc hcb => hrest ⟨c, hc, by simpa using hcb⟩
        refine ⟨a, by rw [hzero]; rfl, hab, ?_⟩
        intro c' hc' hle
        rcases List.mem_cons.mp hc' with rfl | hc'
        · exact Nat.le_refl _
        · exact absurd ⟨c', hc', hle⟩ hrest

-- Bytes between two cuts are read alike.
theorem successors_eq_of_cut {b c : Nat} (hc : c ≤ b) (hmax : ∀ c' ∈ p.cuts, c' ≤ b → c' ≤ c) :
    p.successors s c = p.successors s b := by
  have hreads : ∀ m ∈ p.marks, m.reads c = m.reads b := by
    intro m hm
    cases m with
    | finish rule => rfl
    | bytes low high =>
        have hcut : ∀ c' ∈ [low, high + 1], c' ∈ p.cuts := fun c' hc' =>
          IndexSet.mem_ofList.mpr (List.mem_cons_of_mem 0
            (List.mem_flatMap.mpr ⟨_, Array.mem_toList_iff.mpr hm, hc'⟩))
        have hlow := hmax low (hcut low (by simp))
        have hhigh := hmax (high + 1) (hcut (high + 1) (by simp))
        simp only [Mark.reads]
        rw [Bool.eq_iff_iff]
        simp only [Bool.and_eq_true, decide_eq_true_eq]
        omega
  refine IndexSet.ext fun j => ?_
  rw [Positions.mem_successors, Positions.mem_successors]
  refine exists_congr fun i => and_congr_right fun _ => and_congr_left fun _ => ?_
  refine exists_congr fun m => and_congr_right fun hm => ?_
  rw [hreads m (Array.mem_of_getElem? hm)]

-- The sets of positions that have a state.
def states (first : IndexSet) (p : Positions) : List IndexSet :=
  sortBy IndexSet.precedes (explore p p.cuts.members (Nat.pow 2 p.marks.size) [first] [first])

theorem states_spec (hp : p.IsWellFormed) (hfirst : ∀ i ∈ first, i < p.marks.size)
    (hne : first ≠ .empty) : first ∈ states first p ∧
      ∀ s ∈ states first p, s ≠ .empty ∧ ∀ b : UInt8, p.successors s b.toNat ≠ .empty →
        p.successors s b.toNat ∈ states first p := by
  have hstart :
      Explores p p.cuts.members p.marks.size (Nat.pow 2 p.marks.size) [first] [first] := by
    refine ⟨List.nodup_singleton _, ?_, ?_, fun s hs => .inl hs, Nat.le_refl _⟩
    · exact fun s hs => List.mem_singleton.mp hs ▸ hne
    · exact fun s hs => List.mem_singleton.mp hs ▸ hfirst
  obtain ⟨hknown, hclosed⟩ := explore_spec hp hstart
  refine ⟨mem_sortBy.mpr (hknown first (List.mem_singleton_self _)), fun s hs => ?_⟩
  obtain ⟨hs, hdone⟩ := hclosed s (mem_sortBy.mp hs)
  refine ⟨hs, fun b hb => mem_sortBy.mpr ?_⟩
  obtain ⟨c, hc, hle, hmax⟩ := exists_cut p.cuts.ascending (b := b.toNat)
    ⟨0, IndexSet.mem_ofList.mpr List.mem_cons_self, Nat.zero_le _⟩
  rw [← successors_eq_of_cut hle hmax] at hb ⊢
  exact hdone c (List.mem_of_getElem? hc) hb

variable {state : Nat} {t : Text}

theorem step_ofPositions (hs : (states first p)[state]? = some s) (b : UInt8) :
    (ofPositions first p).step state b = (states first p).idxOf? (p.successors s b.toNat) := by
  obtain ⟨c, hc, hle, hmax⟩ := exists_cut p.cuts.ascending (b := b.toNat)
    ⟨0, IndexSet.mem_ofList.mpr List.mem_cons_self, Nat.zero_le _⟩
  have hrow : (ofPositions first p).next[state]? = some
      (p.cuts.members.map fun b => (states first p).idxOf? (p.successors s b)).toArray := by
    show ((states first p).map _).toArray[state]? = _
    rw [List.getElem?_toArray, List.getElem?_map, hs]
    rfl
  have hclass : (ofPositions first p).classes[b.toNat]? =
      some (p.cuts.members.countP (· ≤ b.toNat) - 1) := by
    show ((List.range 256).map _).toArray[b.toNat]? = _
    rw [List.getElem?_toArray, List.getElem?_map, List.getElem?_range b.toNat_lt]
    rfl
  rw [step, hrow, hclass]
  show ((p.cuts.members.map _).toArray[_]?).join = _
  rw [List.getElem?_toArray, List.getElem?_map, hc, ← successors_eq_of_cut hle hmax]
  rfl

theorem accepted?_ofPositions (hs : (states first p)[state]? = some s) :
    (ofPositions first p).accepted? state = p.ended? s := by
  show (((states first p).map p.ended?).toArray[state]?).join = _
  rw [List.getElem?_toArray, List.getElem?_map, hs]
  rfl

-- The state behind a text, as far as the automaton goes on with it.
def run (a : Automaton) (t : Text) : Option Nat := t.foldlM a.step a.start

-- What can be seen of the state behind a text: whether there is one, and which rule it accepts.
def outcome (a : Automaton) (t : Text) : Option (Option Nat) := (a.run t).map a.accepted?

theorem outcome_ofPositions (hp : p.IsWellFormed) (hfirst : ∀ i ∈ first, i < p.marks.size)
    (hne : first ≠ .empty) (t : Text) : (ofPositions first p).outcome t =
      if p.reached first t = .empty then none else some (p.ended? (p.reached first t)) := by
  obtain ⟨hstart, hstates⟩ := states_spec hp hfirst hne
  have hfrom : ∀ t state s, (states first p)[state]? = some s →
      (t.foldlM (ofPositions first p).step state).map (ofPositions first p).accepted? =
        if p.reached s t = .empty then none else some (p.ended? (p.reached s t)) := by
    intro t
    induction t with
    | nil =>
        intro state s hs
        have hs' : p.reached s [] ≠ .empty := (hstates s (List.mem_of_getElem? hs)).1
        rw [if_neg hs']
        exact congrArg some (accepted?_ofPositions hs)
    | cons b t ih =>
        intro state s hs
        rw [List.foldlM_cons, step_ofPositions hs]
        cases hstate : (states first p).idxOf? (p.successors s b.toNat) with
        | none =>
            have hempty : p.successors s b.toNat = .empty := by
              by_contra hne
              exact List.idxOf?_eq_none_iff.mp hstate
                ((hstates s (List.mem_of_getElem? hs)).2 b hne)
            have hreached : p.reached s (b :: t) = .empty := by
              show p.reached (p.successors s b.toNat) t = _
              rw [hempty, Positions.reached_empty]
            rw [if_pos hreached]
            rfl
        | some state' =>
            obtain ⟨hlt, hget, -⟩ := List.idxOf?_eq_some_iff.mp hstate
            exact ih state' _ (List.getElem?_eq_some_iff.mpr ⟨hlt, hget⟩)
  exact hfrom t _ first (List.getElem?_idxOf hstart)

variable {rs : List Regex}

-- The automaton for a list of expressions, before states are merged.
def unmerged (rs : List Regex) : Automaton :=
  ofPositions (Positions.ofRegexes rs).1 (Positions.ofRegexes rs).2

-- A match of one of the expressions starts with a text.
def Begins (rs : List Regex) (t : Text) : Prop := ∃ r ∈ rs, ∃ u, r.Matches (t ++ u)

theorem begins_iff_leads {p : Positions} (h : p.Recognizes first rs) :
    Begins rs t ↔ ∃ rule u, p.Leads rule first.toSet (t ++ u) := by
  constructor
  · rintro ⟨r, hr, u, hmatches⟩
    obtain ⟨rule, hrule⟩ := List.mem_iff_getElem?.mp hr
    exact ⟨rule, u, (h.leads_iff rule _).mpr ⟨r, hrule, hmatches⟩⟩
  · rintro ⟨rule, u, hleads⟩
    obtain ⟨r, hrule, hmatches⟩ := (h.leads_iff rule _).mp hleads
    exact ⟨r, List.mem_of_getElem? hrule, u, hmatches⟩

theorem reached_lt {p : Positions} (h : p.Recognizes first rs) (t : Text) :
    ∀ i ∈ p.reached first t, i < p.marks.size := by
  induction t using List.reverseRecOn with
  | nil => exact h.start_lt
  | append_singleton t b _ =>
      rw [Positions.reached_append]
      intro j hj
      obtain ⟨i, -, -, hfollows⟩ := Positions.mem_successors.mp hj
      exact h.wellFormed.bounded i j hfollows

-- As no position is a dead end, what can be gone on with is the beginning of a match.
theorem reached_ne_empty_iff {p : Positions} (h : p.Recognizes first rs)
    (hproductive : ∀ r ∈ rs, r.IsProductive) : p.reached first t ≠ .empty ↔ Begins rs t := by
  rw [begins_iff_leads h]
  constructor
  · intro hne
    obtain ⟨i, hi⟩ : ∃ i, i ∈ p.reached first t := by
      by_contra hnone
      exact hne (IndexSet.ext fun i => iff_of_false (fun hi => hnone ⟨i, hi⟩)
        (IndexSet.notMem_empty i))
    obtain ⟨rule, u, hrun⟩ := h.alive hproductive i (reached_lt h t i hi)
    exact ⟨rule, u, Positions.leads_reached.mp ⟨i, hi, hrun⟩⟩
  · rintro ⟨rule, u, hleads⟩ hempty
    obtain ⟨i, hi, -⟩ := Positions.leads_reached.mpr hleads
    rw [hempty] at hi
    exact IndexSet.notMem_empty i hi

-- The automaton goes on with what begins a match, and accepts the first rule that has matched.
theorem outcome_unmerged (hproductive : ∀ r ∈ rs, r.IsProductive) (hne : rs ≠ []) (t : Text) :
    ((unmerged rs).outcome t = none ↔ ¬Begins rs t) ∧
      ∀ rule, (unmerged rs).outcome t = some (some rule) ↔ Regex.MatchesFirst rs rule t := by
  have h := Positions.ofRegexes_recognizes rs
  have hfirst : (Positions.ofRegexes rs).1 ≠ .empty := by
    refine (reached_ne_empty_iff (t := []) h hproductive).mpr ?_
    obtain ⟨r, hr⟩ := List.exists_mem_of_ne_nil rs hne
    exact ⟨r, hr, (hproductive r hr).exists_matches⟩
  rw [unmerged, outcome_ofPositions h.wellFormed h.start_lt hfirst]
  constructor
  · rw [← reached_ne_empty_iff h hproductive, not_ne_iff]
    split
    · next hempty => exact iff_of_true rfl hempty
    · next hempty => exact iff_of_false nofun hempty
  · intro rule
    have hends : ∀ i, (Positions.ofRegexes rs).2.Leads i
        ((Positions.ofRegexes rs).2.reached (Positions.ofRegexes rs).1 t).toSet [] ↔
          ∃ r, rs[i]? = some r ∧ r.Matches t := by
      intro i
      rw [Positions.leads_reached, List.append_nil, h.leads_iff]
    split
    · next hempty =>
      refine iff_of_false nofun fun ⟨hrule, _⟩ => ?_
      obtain ⟨i, hi, -⟩ := (hends rule).mpr hrule
      rw [hempty] at hi
      exact IndexSet.notMem_empty i hi
    · rw [Option.some_inj, Positions.ended?_eq_some, hends]
      refine and_congr_right fun _ => ?_
      constructor
      · intro hmin i hi r hr hmatches
        exact Nat.not_lt.mpr (hmin i ((hends i).mpr ⟨r, hr, hmatches⟩)) hi
      · intro hmin i hi
        obtain ⟨r, hr, hmatches⟩ := (hends i).mp hi
        exact Nat.not_lt.mp fun hlt => hmin i hlt r hr hmatches

end Automaton

end Lookahead
