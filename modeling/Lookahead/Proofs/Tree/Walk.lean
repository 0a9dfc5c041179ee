import Lookahead.Proofs.Tree.Forest
import Lookahead.Tree.Walk
import Mathlib.Data.List.Nodup

/-!
Walks in both directions. What a listener computes for a node does not depend on the direction, and
a walk from the right tells what a walk from the left tells, but backwards: it enters where the
other one leaves. Both visit every place of the tree once, unless a node above it is refused.
-/

namespace Lookahead

-- Trees in the order in which they are visited.
def Direction.order : Direction → List Tree → List Tree
  | leftToRight, trees => trees
  | rightToLeft, trees => trees.reverse

theorem Direction.mem_order {dir : Direction} {t : Tree} {trees : List Tree} :
    t ∈ dir.order trees ↔ t ∈ trees := by
  cases dir with
  | leftToRight => rfl
  | rightToLeft => exact List.mem_reverse

namespace Listener

variable {β : Type} (l : Listener β)

mutual

-- The value of a node at some level. It is told by the tree alone, in no order of visits.
def valueAt (level : Nat) : Tree → Option β
  | .missing => none
  | .leaf s token =>
    if (Tree.leaf s token).isTerminal then l.terminal token level
    else l.exit (.leaf s token) level []
  | .branch r children =>
    l.exit (.branch r children) level
      (if l.enter (.branch r children) level then valuesAt (level + 1) children else [])

def valuesAt (level : Nat) : List Tree → List (Option β)
  | [] => []
  | t :: rest => valueAt level t :: valuesAt level rest

end

-- The values with which a node is left: those of its children, from the first symbol of the
-- right-hand side to the last one, unless the children are not visited.
def valuesBelow (level : Nat) (t : Tree) : List (Option β) :=
  if l.enter t level then t.children.map (l.valueAt (level + 1)) else []

theorem valuesAt_eq_map (level : Nat) (trees : List Tree) :
    l.valuesAt level trees = trees.map (l.valueAt level) := by
  induction trees with
  | nil => rfl
  | cons t trees ih => rw [valuesAt, ih, List.map_cons]

theorem valuesBelow_leaf (level : Nat) (s : Option Symbol) (token : Option Token) :
    l.valuesBelow level (.leaf s token) = [] := by
  rw [valuesBelow]
  split <;> rfl

-- A node at a place of a tree, given by the numbers of the children on the way to it. No node on
-- the way is refused.
inductive VisitedAt : (level : Nat) → Tree → (place : List Nat) → (node : Tree) → Prop
  | here {level : Nat} {t : Tree} (h : t.isMissing = false) : VisitedAt level t [] t
  | inside {level i : Nat} {r : Option Rule} {children : List Tree} {child node : Tree}
      {place : List Nat} (hopen : l.enter (.branch r children) level = true)
      (hchild : children[i]? = some child) (h : VisitedAt (level + 1) child place node) :
      VisitedAt level (.branch r children) (i :: place) node

-- The same below some trees that are the children of one node, from number `first` on.
def VisitedBelow (level first : Nat) (trees : List Tree) (place : List Nat) (node : Tree) : Prop :=
  ∃ i child rest, place = (first + i) :: rest ∧ trees[i]? = some child ∧
    l.VisitedAt (level + 1) child rest node

variable {l}

theorem visitedBelow_cons {level first : Nat} {t node : Tree} {trees : List Tree}
    {place : List Nat} :
    l.VisitedBelow level first (t :: trees) place node ↔
      l.VisitedBelow level first [t] place node ∨
        l.VisitedBelow level (first + 1) trees place node := by
  constructor
  · rintro ⟨i, child, rest, rfl, hchild, h⟩
    cases i with
    | zero => exact .inl ⟨0, child, rest, rfl, hchild, h⟩
    | succ i => exact .inr ⟨i, child, rest, by rw [Nat.add_right_comm]; rfl, hchild, h⟩
  · rintro (⟨i, child, rest, rfl, hchild, h⟩ | ⟨i, child, rest, rfl, hchild, h⟩)
    · cases i with
      | zero => exact ⟨0, child, rest, rfl, hchild, h⟩
      | succ i => cases hchild
    · exact ⟨i + 1, child, rest, by rw [Nat.add_right_comm]; rfl, hchild, h⟩

theorem visitedAt_leaf {level : Nat} {s : Option Symbol} {token : Option Token} {place : List Nat}
    {node : Tree} :
    l.VisitedAt level (.leaf s token) place node ↔ place = [] ∧ node = .leaf s token := by
  constructor
  · rintro ⟨-⟩
    exact ⟨rfl, rfl⟩
  · rintro ⟨rfl, rfl⟩
    exact .here rfl

theorem visitedAt_branch {level : Nat} {r : Option Rule} {children : List Tree}
    {place : List Nat} {node : Tree} :
    l.VisitedAt level (.branch r children) place node ↔
      (place = [] ∧ node = .branch r children) ∨
        (l.enter (.branch r children) level = true ∧
          l.VisitedBelow level 0 children place node) := by
  constructor
  · rintro (_ | ⟨hopen, hchild, h⟩)
    · exact .inl ⟨rfl, rfl⟩
    · exact .inr ⟨hopen, _, _, _, by rw [Nat.zero_add], hchild, h⟩
  · rintro (⟨rfl, rfl⟩ | ⟨hopen, i, child, rest, rfl, hchild, h⟩)
    · exact .here rfl
    · rw [Nat.zero_add]
      exact .inside hopen hchild h

end Listener

namespace Event

variable {β : Type}

-- What is told in place of an event if a walk goes backwards.
def mirror (l : Listener β) : Event β → Event β
  | enter t level => exit t level (l.valuesBelow level t)
  | terminal token level => terminal token level
  | exit t level _ => enter t level

def token? : Event β → Option (Option Token)
  | terminal token _ => some token
  | _ => none

-- What is told on the way down to a node, and on the way up from it.
def opening (node : Tree) (level : Nat) : Event β :=
  match node with
  | .leaf s token =>
    if (Tree.leaf s token).isTerminal then terminal token level else enter node level
  | _ => enter node level

def closing (l : Listener β) (node : Tree) (level : Nat) : Event β :=
  match node with
  | .leaf s token =>
    if (Tree.leaf s token).isTerminal then terminal token level
    else exit node level (l.valuesBelow level node)
  | _ => exit node level (l.valuesBelow level node)

def isOpening : Event β → Bool
  | exit .. => false
  | _ => true

def isClosing : Event β → Bool
  | enter .. => false
  | _ => true

-- Events that tell of some places, of each of them once on the way down and once on the way up.
structure IsTour (l : Listener β) (level : Nat) (visited : List Nat → Tree → Prop)
    (visits : List (List Nat × Tree)) (events : List (Event β)) : Prop where
  nodup : (visits.map (·.1)).Nodup
  mem_iff : ∀ place node, (place, node) ∈ visits ↔ visited place node
  opened : events.filter isOpening = visits.map fun v => opening v.2 (level + v.1.length)
  closed : (events.filter isClosing).Perm
    (visits.map fun v => closing l v.2 (level + v.1.length))

-- Events in which every node that is entered is left once, at the same level and behind everything
-- below it, which is one level deeper.
inductive Nested : (level : Nat) → List (Event β) → Prop
  | nil {level : Nat} : Nested level []
  | terminal {level : Nat} {events : List (Event β)} (token : Option Token)
      (h : Nested level events) : Nested level (.terminal token level :: events)
  | node {level : Nat} {inner events : List (Event β)} (t : Tree) (values : List (Option β))
      (hi : Nested (level + 1) inner) (h : Nested level events) :
      Nested level (.enter t level :: (inner ++ .exit t level values :: events))

namespace Nested

variable {level : Nat} {events more : List (Event β)}

theorem append (h : Nested level events) (h' : Nested level more) :
    Nested level (events ++ more) := by
  induction h with
  | nil => exact h'
  | terminal token _ ih => exact .terminal token (ih h')
  | node t values hi _ _ ih =>
      simpa only [List.cons_append, List.append_assoc] using node t values hi (ih h')

theorem flatMap {trees : List Tree} {f : Tree → List (Event β)}
    (h : ∀ t ∈ trees, Nested level (f t)) : Nested level (trees.flatMap f) := by
  induction trees with
  | nil => exact .nil
  | cons t trees ih =>
      obtain ⟨ht, htrees⟩ := List.forall_mem_cons.mp h
      exact ht.append (ih htrees)

end Nested

namespace IsTour

variable {l : Listener β} {level : Nat} {visited visited' : List Nat → Tree → Prop}
  {visits visits' : List (List Nat × Tree)} {events events' : List (Event β)}

theorem nil (h : ∀ place node, ¬visited place node) : IsTour l level visited [] [] where
  nodup := List.nodup_nil
  mem_iff place node := iff_of_false List.not_mem_nil (h place node)
  opened := rfl
  closed := .nil

theorem congr (h : IsTour l level visited visits events)
    (hiff : ∀ place node, visited place node ↔ visited' place node) :
    IsTour l level visited' visits events :=
  { h with mem_iff := fun place node => (h.mem_iff place node).trans (hiff place node) }

theorem append (h : IsTour l level visited visits events)
    (h' : IsTour l level visited' visits' events')
    (hdisjoint : ∀ place node node', visited place node → ¬visited' place node') :
    IsTour l level (fun place node => visited place node ∨ visited' place node)
      (visits ++ visits') (events ++ events') where
  nodup := by
    rw [List.map_append, List.nodup_append]
    refine ⟨h.nodup, h'.nodup, ?_⟩
    rintro place hplace _ hplace' rfl
    obtain ⟨⟨_, node⟩, hv, rfl⟩ := List.mem_map.mp hplace
    obtain ⟨⟨_, node'⟩, hv', heq⟩ := List.mem_map.mp hplace'
    cases heq
    exact hdisjoint _ _ _ ((h.mem_iff _ _).mp hv) ((h'.mem_iff _ _).mp hv')
  mem_iff place node := by rw [List.mem_append, h.mem_iff, h'.mem_iff]
  opened := by rw [List.filter_append, h.opened, h'.opened, List.map_append]
  closed := by
    rw [List.filter_append, List.map_append]
    exact h.closed.append h'.closed

-- The tour of a child is part of the one below its parent, one level further down.
theorem ofChild {t : Tree} (first : Nat)
    (h : IsTour l (level + 1) (l.VisitedAt (level + 1) t) visits events) :
    IsTour l level (l.VisitedBelow level first [t])
      (visits.map fun v => (first :: v.1, v.2)) events where
  nodup := by
    have hinjective : Function.Injective (first :: · : List Nat → List Nat) :=
      fun _ _ heq => (List.cons.inj heq).2
    have hnodup := h.nodup.map hinjective
    rwa [List.map_map] at hnodup ⊢
  mem_iff place node := by
    constructor
    · intro hmem
      obtain ⟨⟨rest, node⟩, hv, heq⟩ := List.mem_map.mp hmem
      cases heq
      exact ⟨0, t, rest, rfl, rfl, (h.mem_iff _ _).mp hv⟩
    · rintro ⟨i, child, rest, rfl, hchild, hvisited⟩
      obtain ⟨rfl, rfl⟩ : i = 0 ∧ child = t := by
        cases i with
        | zero => exact ⟨rfl, (Option.some.inj hchild).symm⟩
        | succ i => cases hchild
      exact List.mem_map.mpr ⟨(rest, node), (h.mem_iff _ _).mpr hvisited, rfl⟩
  opened := by
    rw [h.opened, List.map_map]
    exact List.map_congr_left fun v _ => by simp [Nat.add_right_comm, Nat.add_assoc]
  closed := by
    refine h.closed.trans (.of_eq ?_)
    rw [List.map_map]
    exact List.map_congr_left fun v _ => by simp [Nat.add_right_comm, Nat.add_assoc]

-- A node is told of in front of what is below it, and behind it.
theorem around {t : Tree} {values : List (Option β)}
    (h : IsTour l level visited visits events) (hbelow : ∀ node, ¬visited [] node)
    (hopening : opening t level = (enter t level : Event β))
    (hclosing : closing l t level = exit t level values) :
    IsTour l level (fun place node => (place = [] ∧ node = t) ∨ visited place node)
      (([], t) :: visits) (enter t level :: (events ++ [exit t level values])) where
  nodup := by
    refine List.nodup_cons.mpr ⟨fun hmem => ?_, h.nodup⟩
    obtain ⟨⟨_, node⟩, hv, heq⟩ := List.mem_map.mp hmem
    cases heq
    exact hbelow node ((h.mem_iff _ _).mp hv)
  mem_iff place node := by rw [List.mem_cons, h.mem_iff, Prod.mk.injEq]
  opened := by
    rw [List.filter_cons_of_pos rfl, List.filter_append, h.opened]
    simp [isOpening, hopening]
  closed := by
    rw [List.filter_cons_of_neg Bool.false_ne_true, List.filter_append, List.map_cons]
    show (_ ++ [exit t level values]).Perm (closing l t level :: _)
    rw [hclosing]
    exact (List.perm_append_singleton _ _).trans (h.closed.cons _)

end IsTour

end Event

namespace Tree

open Event

variable {β : Type} (l : Listener β) (dir : Direction) (level : Nat)

-- The values of children are listed from left to right, in whatever order they are visited.
theorem walkAll_values (trees : List Tree) :
    (walkAll l dir level trees).2 = trees.map fun t => (walkFrom l dir level t).2 := by
  induction trees with
  | nil => rfl
  | cons t trees ih =>
      rw [walkAll, List.map_cons, ← ih]
      cases dir <;> rfl

theorem walkAll_events (trees : List Tree) :
    (walkAll l dir level trees).1 =
      (dir.order trees).flatMap fun t => (walkFrom l dir level t).1 := by
  induction trees with
  | nil => cases dir <;> rfl
  | cons t trees ih =>
      cases dir with
      | leftToRight =>
          rw [Direction.order, List.flatMap_cons]
          exact congrArg _ ih
      | rightToLeft =>
          rw [Direction.order, List.reverse_cons, List.flatMap_append, List.flatMap_singleton]
          exact congrArg (· ++ _) ih

-- The value of a node does not depend on the direction of the walk.
theorem walkFrom_value (t : Tree) : (walkFrom l dir level t).2 = l.valueAt level t := by
  induction t using induction_on_children generalizing level with
  | missing => rfl
  | leaf s token =>
      rw [walkFrom, Listener.valueAt]
      split <;> rfl
  | branch r children ih =>
      rw [walkFrom, Listener.valueAt]
      split
      · have hvalues :
            (walkAll l dir (level + 1) children).2 = l.valuesAt (level + 1) children := by
          rw [walkAll_values, l.valuesAt_eq_map]
          exact List.map_congr_left fun t ht => ih t ht (level + 1)
        rw [← hvalues]
        rfl
      · rfl

-- What is told about the children of a branch.
def eventsBelow (r : Option Rule) (children : List Tree) : List (Event β) :=
  if l.enter (branch r children) level then
    (dir.order children).flatMap fun t => (walkFrom l dir (level + 1) t).1
  else []

theorem walkFrom_branch_events (r : Option Rule) (children : List Tree) :
    (walkFrom l dir level (branch r children)).1 =
      .enter (branch r children) level :: (eventsBelow l dir level r children ++
        [.exit (branch r children) level (l.valuesBelow level (branch r children))]) := by
  have hvalues : (if l.enter (branch r children) level then walkAll l dir (level + 1) children
      else ([], [])).2 = l.valuesBelow level (branch r children) := by
    rw [Listener.valuesBelow]
    split
    · rw [walkAll_values]
      exact List.map_congr_left fun t _ => walkFrom_value l dir (level + 1) t
    · rfl
  rw [walkFrom, around, hvalues, eventsBelow, ← walkAll_events]
  split <;> rfl

theorem walkFrom_leaf_events (s : Option Symbol) (token : Option Token) :
    (walkFrom l dir level (leaf s token)).1 =
      if (leaf s token).isTerminal then [.terminal token level]
      else [.enter (leaf s token) level, .exit (leaf s token) level []] := by
  rw [walkFrom]
  split <;> rfl

-- A walk from the right tells everything backwards.
theorem walkFrom_rightToLeft (t : Tree) :
    (walkFrom l .rightToLeft level t).1 =
      (walkFrom l .leftToRight level t).1.reverse.map (mirror l) := by
  induction t using induction_on_children generalizing level with
  | missing => rfl
  | leaf s token =>
      rw [walkFrom_leaf_events, walkFrom_leaf_events]
      split
      · rfl
      · simp [mirror, l.valuesBelow_leaf]
  | branch r children ih =>
      have hbelow : eventsBelow l .rightToLeft level r children =
          (eventsBelow l .leftToRight level r children).reverse.map (mirror l) := by
        rw [eventsBelow, eventsBelow]
        split
        · rw [List.reverse_flatMap, List.map_flatMap]
          refine List.flatMap_congr fun t ht => ?_
          exact ih t (List.mem_reverse.mp ht) (level + 1)
        · rfl
      rw [walkFrom_branch_events, walkFrom_branch_events, hbelow]
      simp [mirror]

theorem nested_walkFrom (t : Tree) : Nested level (walkFrom l dir level t).1 := by
  induction t using induction_on_children generalizing level with
  | missing => exact .nil
  | leaf s token =>
      rw [walkFrom_leaf_events]
      split
      · exact .terminal token .nil
      · exact .node _ [] .nil .nil
  | branch r children ih =>
      have hbelow : Nested (level + 1) (eventsBelow l dir level r children) := by
        rw [eventsBelow]
        split
        · exact .flatMap fun t ht => ih t (Direction.mem_order.mp ht) (level + 1)
        · exact .nil
      rw [walkFrom_branch_events]
      exact .node _ _ hbelow .nil

-- The children of a node have different numbers, in whatever order they are visited.
theorem exists_tourBelow (trees : List Tree) (first : Nat)
    (h : ∀ t ∈ trees, ∃ visits, IsTour l (level + 1) (l.VisitedAt (level + 1) t) visits
      (walkFrom l dir (level + 1) t).1) :
    ∃ visits, IsTour l level (l.VisitedBelow level first trees) visits
      (walkAll l dir (level + 1) trees).1 := by
  induction trees generalizing first with
  | nil => exact ⟨[], .nil fun place node ⟨_, _, _, _, hchild, _⟩ => nomatch hchild⟩
  | cons t trees ih =>
      obtain ⟨ht, htrees⟩ := List.forall_mem_cons.mp h
      obtain ⟨visits, hvisits⟩ := ht
      obtain ⟨more, hmore⟩ := ih (first + 1) htrees
      have hdisjoint : ∀ place node node', l.VisitedBelow level first [t] place node →
          ¬l.VisitedBelow level (first + 1) trees place node' := by
        rintro place node node' ⟨i, _, _, rfl, hchild, -⟩ ⟨j, _, _, hplace, -⟩
        cases i with
        | zero =>
            have hfirst := (List.cons.inj hplace).1
            omega
        | succ i => cases hchild
      cases dir with
      | leftToRight =>
          exact ⟨_, ((hvisits.ofChild first).append hmore hdisjoint).congr
            fun place node => Listener.visitedBelow_cons.symm⟩
      | rightToLeft =>
          exact ⟨_, (hmore.append (hvisits.ofChild first)
            fun place node node' h h' => hdisjoint place node' node h' h).congr
            fun place node => or_comm.trans Listener.visitedBelow_cons.symm⟩

theorem exists_tourOfLeaf (s : Option Symbol) (token : Option Token) :
    ∃ visits, IsTour l level (l.VisitedAt level (leaf s token)) visits
      (walkFrom l dir level (leaf s token)).1 := by
  rw [walkFrom_leaf_events]
  split
  · next hterminal =>
    refine ⟨[([], leaf s token)], List.nodup_singleton _, fun place node => ?_, ?_, ?_⟩
    · rw [Listener.visitedAt_leaf, List.mem_singleton, Prod.mk.injEq]
    · simp [isOpening, opening, hterminal]
    · simp [isClosing, closing, hterminal]
  · next hterminal =>
    refine ⟨_, ((IsTour.nil fun _ _ => id).around (fun _ => id) ?_ ?_).congr fun place node => ?_⟩
    · simp [opening, hterminal]
    · simp [closing, hterminal, l.valuesBelow_leaf]
    · rw [Listener.visitedAt_leaf, or_false]

theorem exists_tour (t : Tree) :
    ∃ visits, IsTour l level (l.VisitedAt level t) visits (walkFrom l dir level t).1 := by
  induction t using induction_on_children generalizing level with
  | missing =>
      refine ⟨[], .nil fun place node h => ?_⟩
      cases h with
      | here h => cases h
  | leaf s token => exact exists_tourOfLeaf l dir level s token
  | branch r children ih =>
      obtain ⟨visits, hvisits⟩ : ∃ visits, IsTour l level
          (fun place node => l.enter (branch r children) level = true ∧
            l.VisitedBelow level 0 children place node) visits
          (eventsBelow l dir level r children) := by
        rw [eventsBelow, ← walkAll_events]
        split
        · next hopen =>
          obtain ⟨visits, hvisits⟩ := exists_tourBelow l dir level children 0
            fun t ht => ih t ht (level + 1)
          exact ⟨visits, hvisits.congr fun place node => (and_iff_right hopen).symm⟩
        · next hclosed => exact ⟨[], .nil fun place node h => hclosed h.1⟩
      rw [walkFrom_branch_events]
      refine ⟨_, (hvisits.around ?_ rfl rfl).congr fun _ _ => Listener.visitedAt_branch.symm⟩
      rintro node ⟨-, i, child, rest, hplace, -⟩
      cases hplace

-- Without refused nodes, the tokens of a tree are told in their order.
theorem tokens_walkFrom (henter : ∀ node depth, l.enter node depth = true) (t : Tree) :
    (walkFrom l .leftToRight level t).1.filterMap token? = t.tokens := by
  induction t using induction_on_children generalizing level with
  | missing => rfl
  | leaf s token =>
      rw [walkFrom_leaf_events]
      rcases s with _ | x
      · rfl
      · cases x <;> rfl
  | branch r children ih =>
      have hbelow : (eventsBelow l .leftToRight level r children).filterMap token? =
          tokensOfAll children := by
        rw [eventsBelow, if_pos (henter _ _), Direction.order, List.filterMap_flatMap, tokensOfAll,
          leavesOfAll_eq_flatMap, List.map_flatMap]
        exact List.flatMap_congr fun t ht => ih t ht (level + 1)
      rw [walkFrom_branch_events, List.filterMap_cons_none rfl, List.filterMap_append, hbelow]
      exact List.append_nil _

-- The two walks over a tree give it the same value, and one tells backwards what the other one
-- tells. Both visit every place that no refused node hides, and tell of it once on the way down and
-- once on the way up, at its depth, with the values of its children from left to right; what is
-- below a node is told in between. If no node is refused, the walk from the left tells the tokens
-- of the tree in their order.
theorem walk_mirrored (t : Tree) :
    (t.walk l .rightToLeft).2 = (t.walk l .leftToRight).2 ∧
      (t.walk l .rightToLeft).1 = (t.walk l .leftToRight).1.reverse.map (mirror l) ∧
      (∀ dir, (t.walk l dir).2 = l.valueAt 0 t ∧ Nested 0 (t.walk l dir).1 ∧
        ∃ visits, IsTour l 0 (l.VisitedAt 0 t) visits (t.walk l dir).1) ∧
      ((∀ node depth, l.enter node depth = true) →
        (t.walk l .leftToRight).1.filterMap token? = t.tokens) := by
  have hvalue : ∀ dir, (t.walk l dir).2 = l.valueAt 0 t := fun dir => walkFrom_value l dir 0 t
  refine ⟨(hvalue _).trans (hvalue _).symm, walkFrom_rightToLeft l 0 t, fun dir => ?_, ?_⟩
  · exact ⟨hvalue dir, nested_walkFrom l dir 0 t, exists_tour l dir 0 t⟩
  · exact fun henter => tokens_walkFrom l 0 henter t

end Tree

end Lookahead
