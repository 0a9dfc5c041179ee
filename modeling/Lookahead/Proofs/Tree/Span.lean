import Lookahead.Proofs.Tree.Forest
import Mathlib.Data.List.Basic

/-!
The input that trees cover. A span extends from the first start to the last end of the spans of the
leaves, however the leaves are put together; spans that cover nothing do not count. Over leaves that
come one behind the other, it extends from the first leaf to the last one.
-/

namespace Lookahead

namespace Span

variable {s t u : Span} {spans more : List Span}

theorem isNull_iff : s.isNull = true ↔ s = null := decide_eq_true_iff

@[simp] theorem null_extend (s : Span) : null.extend s = s := rfl

@[simp] theorem extend_null (s : Span) : s.extend null = s := by
  unfold extend
  split
  · next hs => exact (isNull_iff.mp hs).symm
  · rfl

theorem min_eq_ite (a b : UInt64) : min a b = if a ≤ b then a else b := rfl

theorem max_eq_ite (a b : UInt64) : max a b = if a ≤ b then b else a := rfl

theorem extend_of_ne (hs : s ≠ null) (ht : t ≠ null) :
    s.extend t = ⟨min s.start t.start, max s.stop t.stop⟩ := by
  rw [extend, if_neg (mt isNull_iff.mp hs), if_neg (mt isNull_iff.mp ht)]

-- An extended span covers something, also if its end lies before its start.
theorem extend_ne_null (hs : s ≠ null) : s.extend t ≠ null := by
  by_cases ht : t = null
  · rwa [ht, extend_null]
  · rw [extend_of_ne hs ht]
    obtain ⟨a, b⟩ := s
    obtain ⟨c, d⟩ := t
    simp only [null, ne_eq, mk.injEq, min_eq_ite, max_eq_ite] at hs ht ⊢
    grind

theorem extend_assoc (s t u : Span) : (s.extend t).extend u = s.extend (t.extend u) := by
  by_cases hs : s = null
  · rw [hs, null_extend, null_extend]
  by_cases ht : t = null
  · rw [ht, null_extend, extend_null]
  by_cases hu : u = null
  · rw [hu, extend_null, extend_null]
  rw [extend_of_ne (extend_ne_null hs) hu, extend_of_ne hs (extend_ne_null ht), extend_of_ne hs ht,
    extend_of_ne ht hu]
  simp only [mk.injEq, min_eq_ite, max_eq_ite]
  grind

-- What some spans cover together.
def hull (spans : List Span) : Span := spans.foldr extend null

@[simp] theorem hull_cons (s : Span) (spans : List Span) :
    hull (s :: spans) = s.extend (hull spans) := rfl

theorem hull_append (spans more : List Span) :
    hull (spans ++ more) = (hull spans).extend (hull more) := by
  induction spans with
  | nil => rfl
  | cons s spans ih => rw [List.cons_append, hull_cons, hull_cons, ih, extend_assoc]

-- Spans can be put together in groups.
theorem hull_flatMap {α : Type} (f : α → List Span) (l : List α) :
    hull (l.flatMap f) = hull (l.map fun x => hull (f x)) := by
  induction l with
  | nil => rfl
  | cons x l ih => rw [List.flatMap_cons, hull_append, ih, List.map_cons, hull_cons]

theorem hull_eq_null_iff : hull spans = null ↔ ∀ s ∈ spans, s = null := by
  induction spans with
  | nil => exact ⟨fun _ => by simp, fun _ => rfl⟩
  | cons s spans ih =>
      rw [hull_cons, List.forall_mem_cons, ← ih]
      constructor
      · intro h
        have hs : s = null := by
          by_contra hs
          exact extend_ne_null hs h
        rw [hs, null_extend] at h
        exact ⟨hs, h⟩
      · rintro ⟨rfl, h⟩
        rw [h, null_extend]

-- The spans that cover something.
def present (spans : List Span) : List Span := spans.filter (· ≠ null)

theorem hull_present (spans : List Span) : hull (present spans) = hull spans := by
  induction spans with
  | nil => rfl
  | cons s spans ih =>
      by_cases hs : s = null
      · simpa [present, hs] using ih
      · have hpresent : present (s :: spans) = s :: present spans := by simp [present, hs]
        rw [hpresent, hull_cons, hull_cons, ih]

-- The least start and the greatest end of some spans.
structure IsExtent (s : Span) (spans : List Span) : Prop where
  start_mem : s.start ∈ spans.map start
  start_le : ∀ t ∈ spans, s.start ≤ t.start
  stop_mem : s.stop ∈ spans.map stop
  le_stop : ∀ t ∈ spans, t.stop ≤ s.stop

theorem IsExtent.cons (h : IsExtent t spans) (s : Span) :
    IsExtent ⟨min s.start t.start, max s.stop t.stop⟩ (s :: spans) := by
  obtain ⟨hstart, hle, hstop, hge⟩ := h
  constructor
  · rw [List.map_cons, List.mem_cons, min_eq_ite]
    split
    · exact .inl rfl
    · exact .inr hstart
  · simp only [List.forall_mem_cons, min_eq_ite]
    grind
  · rw [List.map_cons, List.mem_cons, max_eq_ite]
    split
    · exact .inr hstop
    · exact .inl rfl
  · simp only [List.forall_mem_cons, max_eq_ite]
    grind

-- Spans that cover anything cover what lies between the first start and the last end.
theorem isExtent_hull (h : hull spans ≠ null) : IsExtent (hull spans) (present spans) := by
  induction spans with
  | nil => exact absurd rfl h
  | cons s spans ih =>
      by_cases hs : s = null
      · rw [hull_cons, hs, null_extend] at h ⊢
        simpa [present] using ih h
      · have hpresent : present (s :: spans) = s :: present spans := by simp [present, hs]
        rw [hull_cons, hpresent]
        by_cases hspans : hull spans = null
        · have hnone : present spans = [] := by
            rw [present, List.filter_eq_nil_iff]
            simpa using hull_eq_null_iff.mp hspans
          rw [hspans, extend_null, hnone]
          exact ⟨by simp, by simp, by simp, by simp⟩
        · rw [extend_of_ne hs hspans]
          exact (ih hspans).cons s

-- Spans that cover something each, one behind the other.
def Ascending (spans : List Span) : Prop :=
  (∀ s ∈ spans, s.start < s.stop) ∧ spans.Pairwise fun s t => s.stop ≤ t.start

instance : DecidablePred Ascending := fun _ => inferInstanceAs (Decidable (_ ∧ _))

theorem ne_null_of_lt (h : s.start < s.stop) : s ≠ null := by
  rintro rfl
  exact absurd h (by decide)

theorem Ascending.sublist (h : Ascending spans) (hs : more.Sublist spans) : Ascending more :=
  ⟨fun s hm => h.1 s (hs.subset hm), h.2.sublist hs⟩

-- Spans one behind the other extend from the first one to the last one.
theorem Ascending.hull_eq (h : Ascending (s :: spans)) :
    hull (s :: spans) = ⟨s.start, ((s :: spans).getLast (List.cons_ne_nil _ _)).stop⟩ := by
  induction spans generalizing s with
  | nil => rw [hull_cons]; exact extend_null s
  | cons t spans ih =>
      obtain ⟨hlt, hpairs⟩ := h
      obtain ⟨hs, hrest⟩ := List.forall_mem_cons.mp hlt
      obtain ⟨hfirst, hpairs⟩ := List.pairwise_cons.mp hpairs
      have hhull := ih ⟨hrest, hpairs⟩
      have hlast := List.getLast_mem (l := t :: spans) (by simp)
      have hst := hfirst t List.mem_cons_self
      have hsl := hfirst _ hlast
      have hll := hrest _ hlast
      have hne : hull (t :: spans) ≠ null := by
        rw [ne_eq, hull_eq_null_iff]
        exact fun hn => ne_null_of_lt (hrest t List.mem_cons_self) (hn t List.mem_cons_self)
      rw [hull_cons, extend_of_ne (ne_null_of_lt hs) hne, hhull,
        List.getLast_cons (List.cons_ne_nil _ _)]
      simp only [mk.injEq, min_eq_ite, max_eq_ite]
      grind

-- What groups of spans cover comes one behind the other if the spans do.
theorem Ascending.hulls {groups : List (List Span)} (h : Ascending groups.flatten) :
    Ascending (present (groups.map hull)) := by
  obtain ⟨hlt, hpairs⟩ := h
  obtain ⟨-, hpairs⟩ := List.pairwise_flatten.mp hpairs
  refine ⟨fun s hs => ?_, ?_⟩
  · obtain ⟨hs, hne⟩ := List.mem_filter.mp hs
    obtain ⟨group, hgroup, rfl⟩ := List.mem_map.mp hs
    have hextent := isExtent_hull (show hull group ≠ null by simpa using hne)
    obtain ⟨t, ht, htstart⟩ := List.mem_map.mp hextent.start_mem
    have ht' := hlt t (List.mem_flatten_of_mem hgroup (List.mem_filter.mp ht).1)
    have hstop := hextent.le_stop t ht
    grind
  · refine List.pairwise_filter.mpr (List.pairwise_map.mpr (hpairs.imp ?_))
    intro group other hgroups hs ht
    have hextent := isExtent_hull (show hull group ≠ null by simpa using hs)
    have hextent' := isExtent_hull (show hull other ≠ null by simpa using ht)
    obtain ⟨s, hs, hstop⟩ := List.mem_map.mp hextent.stop_mem
    obtain ⟨t, ht, hstart⟩ := List.mem_map.mp hextent'.start_mem
    rw [← hstop, ← hstart]
    exact hgroups s (List.mem_filter.mp hs).1 t (List.mem_filter.mp ht).1

end Span

namespace Tree

open Lookahead.Span

-- The spans of the leaves of a tree. A leaf without a token covers nothing.
def leafSpans (t : Tree) : List Span := t.leaves.map fun l => (l.2.map (·.span)).getD null

variable {t node : Tree} {r : Option Rule} {children : List Tree}

theorem leafSpans_branch (r : Option Rule) (children : List Tree) :
    (branch r children).leafSpans = children.flatMap leafSpans := by
  rw [leafSpans, leaves, leavesOfAll_eq_flatMap, List.map_flatMap]
  rfl

theorem spanFrom_eq (s : Span) (trees : List Tree) :
    spanFrom s trees = s.extend (hull (trees.map span)) := by
  induction trees generalizing s with
  | nil => rw [spanFrom]; exact (extend_null s).symm
  | cons t trees ih => rw [spanFrom, ih, List.map_cons, hull_cons, extend_assoc]

theorem span_branch (r : Option Rule) (children : List Tree) :
    (branch r children).span = hull (children.map span) := by
  rw [span, spanFrom_eq, null_extend]

theorem span_eq_hull (t : Tree) : t.span = hull t.leafSpans := by
  induction t using induction_on_children with
  | missing => rfl
  | leaf s token =>
      rcases s with _ | x
      · rfl
      · cases x with
        | nonterminal i => rfl
        | _ => exact (extend_null _).symm
  | branch r children ih =>
      rw [span_branch, leafSpans_branch, hull_flatMap]
      exact congrArg hull (List.map_congr_left ih)

theorem preorderOfAll_eq_flatMap (trees : List Tree) :
    preorderOfAll trees = trees.flatMap preorder := by
  induction trees with
  | nil => rfl
  | cons t trees ih => rw [preorderOfAll, ih, List.flatMap_cons]

-- The leaves below a node are some of the leaves of the tree.
theorem leafSpans_sublist (h : node ∈ t.preorder) : node.leafSpans.Sublist t.leafSpans := by
  induction t using induction_on_children with
  | missing =>
      obtain rfl : node = missing := by simpa [preorder] using h
      exact .refl _
  | leaf s token =>
      obtain rfl : node = leaf s token := by simpa [preorder] using h
      exact .refl _
  | branch r children ih =>
      rw [preorder, preorderOfAll_eq_flatMap, List.mem_cons, List.mem_flatMap] at h
      rcases h with rfl | ⟨child, hchild, hnode⟩
      · exact .refl _
      · rw [leafSpans_branch]
        exact (ih child hchild hnode).trans
          (List.sublist_flatten_of_mem (List.mem_map_of_mem hchild))

-- Over leaves one behind the other, a node extends from its first leaf to its last one.
theorem span_of_ascending (h : Ascending t.leafSpans) {first last : Span}
    (hfirst : t.leafSpans.head? = some first) (hlast : t.leafSpans.getLast? = some last) :
    t.span = ⟨first.start, last.stop⟩ := by
  rw [span_eq_hull]
  cases hspans : t.leafSpans with
  | nil => simp [hspans] at hfirst
  | cons s spans =>
      rw [hspans] at h hfirst hlast
      rw [List.getLast?_eq_some_getLast (List.cons_ne_nil s spans)] at hlast
      rw [h.hull_eq, ← Option.some.inj hfirst, ← Option.some.inj hlast]

theorem ascending_children (h : Ascending (branch r children).leafSpans) :
    Ascending (present (children.map span)) := by
  have hspans : children.map span = (children.map leafSpans).map hull := by
    rw [List.map_map]
    exact List.map_congr_left fun t _ => span_eq_hull t
  rw [hspans]
  apply Ascending.hulls
  rwa [leafSpans_branch, List.flatMap_def] at h

end Tree

end Lookahead
