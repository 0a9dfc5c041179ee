import Lookahead.Proofs.Analysis.Follow
import Lookahead.Proofs.Analysis.LeftCorner
import Mathlib.Logic.Function.Iterate

/-!
How many passes an analysis takes. The sets of all non-terminals have many members together, but a
pass treats every possible member on its own: whether a symbol belongs to a set afterwards depends
only on the sets to which the same symbol belonged before. So each symbol is added to some set in
each pass until it is added no more, and after as many passes as there are non-terminals nothing
changes.
-/

namespace Lookahead

section Settling

variable {α : Type} {pass : α → α} {x z : α} {n fuel : Nat}

-- Passes are repeated until one of them changes nothing. That one counts as well.
inductive Settles (pass : α → α) : (x : α) → (passes : Nat) → (z : α) → Prop
  | still {x : α} (h : pass x = x) : Settles pass x 1 x
  | moving {x z : α} {passes : Nat} (hne : pass x ≠ x) (h : Settles pass (pass x) passes z) :
      Settles pass x (passes + 1) z

theorem Settles.pos (h : Settles pass x n z) : 1 ≤ n := by
  cases h with
  | still => exact Nat.le_refl 1
  | moving => exact Nat.le_add_left 1 _

-- Fuel beyond the passes that are needed does not matter.
theorem settles_fixedPoint [DecidableEq α] (h : pass^[n + 1] x = pass^[n] x) (hfuel : n < fuel) :
    Settles pass x (fixedPoint pass fuel x).2 (fixedPoint pass fuel x).1 ∧
      (fixedPoint pass fuel x).2 ≤ n + 1 := by
  induction n generalizing fuel x with
  | zero =>
      obtain ⟨fuel, rfl⟩ := Nat.exists_eq_succ_of_ne_zero (Nat.ne_of_gt hfuel)
      have hstill : pass x = x := h
      rw [fixedPoint, if_pos hstill]
      exact ⟨.still hstill, Nat.le_refl 1⟩
  | succ n ih =>
      obtain ⟨fuel, rfl⟩ := Nat.exists_eq_succ_of_ne_zero (Nat.ne_zero_of_lt hfuel)
      rw [fixedPoint]
      by_cases hstill : pass x = x
      · rw [if_pos hstill]
        exact ⟨.still hstill, Nat.le_add_left 1 _⟩
      · obtain ⟨hsettles, hle⟩ := ih h (Nat.lt_of_succ_lt_succ hfuel)
        rw [if_neg hstill]
        exact ⟨.moving hstill hsettles, Nat.succ_le_succ hle⟩

end Settling

section Layers

variable {β κ : Type} {has : κ → β → Bool} {k : κ} {x y : List β}

-- Which items of a list have a mark.
def layer (has : κ → β → Bool) (k : κ) (x : List β) : List Bool := x.map (has k)

-- What happens to the marks of one kind depends on the marks of that kind only.
def IsLayered (has : κ → β → Bool) (pass : List β → List β) : Prop :=
  ∀ k x y, layer has k x = layer has k y → layer has k (pass x) = layer has k (pass y)

theorem IsLayered.foldl {ρ : Type} {step : List β → ρ → List β} {items : List ρ}
    (h : ∀ r ∈ items, IsLayered has (step · r)) :
    IsLayered has fun x => items.foldl step x := by
  induction items with
  | nil => exact fun _ _ _ heq => heq
  | cons r rest ih =>
      obtain ⟨hr, hrest⟩ := List.forall_mem_cons.mp h
      exact fun k x y heq => ih hrest k _ _ (hr k x y heq)

theorem eq_of_layers [Nonempty κ] (hext : ∀ a b, (∀ k, has k a = has k b) → a = b)
    (h : ∀ k, layer has k x = layer has k y) : x = y := by
  have hlength : x.length = y.length := by
    simpa [layer] using congrArg List.length (h (Classical.arbitrary κ))
  refine List.ext_getElem hlength fun i hx hy => hext _ _ fun k => ?_
  have hi := congrArg (·[i]?) (h k)
  simpa [layer, hx, hy] using hi

variable [PartialOrder β] {pass : List β → List β}

theorem Grows.layer (hmono : Monotone (has k)) (h : Grows x y) :
    Grows (Lookahead.layer has k x) (Lookahead.layer has k y) := by
  induction h with
  | nil => exact .nil
  | cons hab _ ih => exact .cons (hmono hab) ih

-- Until a layer stands still, each pass adds a mark to it.
theorem layer_iterate (hmono : Monotone (has k)) (hgrow : ∀ x, Grows x (pass x))
    (hpass : IsLayered has pass) (x : List β) (m : Nat) :
    layer has k (pass^[m + 1] x) = layer has k (pass^[m] x) ∨
      m < totalSize Bool.toNat (layer has k (pass^[m + 1] x)) := by
  have hsize : StrictMono Bool.toNat := by
    unfold StrictMono
    decide
  have hstep : ∀ m, layer has k (pass^[m + 1] x) = layer has k (pass^[m] x) ∨
      totalSize Bool.toNat (layer has k (pass^[m] x)) <
        totalSize Bool.toNat (layer has k (pass^[m + 1] x)) := by
    intro m
    rw [Function.iterate_succ_apply']
    refine or_iff_not_imp_left.mpr fun hne => ?_
    exact totalSize_lt hsize ((hgrow _).layer hmono) (Ne.symm hne)
  induction m with
  | zero => exact (hstep 0).imp_right (Nat.lt_of_le_of_lt (Nat.zero_le _))
  | succ m ih =>
      rcases ih with hstill | hlt
      · left
        calc layer has k (pass^[m + 2] x)
          _ = layer has k (pass (pass^[m + 1] x)) := by rw [Function.iterate_succ_apply']
          _ = layer has k (pass (pass^[m] x)) := hpass k _ _ hstill
          _ = layer has k (pass^[m + 1] x) := by rw [Function.iterate_succ_apply']
      · exact (hstep (m + 1)).imp_right fun h => by omega

theorem length_iterate (hgrow : ∀ x, Grows x (pass x)) (x : List β) (m : Nat) :
    (pass^[m] x).length = x.length := by
  induction m with
  | zero => rfl
  | succ m ih =>
      rw [Function.iterate_succ_apply', ← (hgrow (pass^[m] x)).length_eq]
      exact ih

-- A layer has no more marks than there are items.
theorem iterate_length_stable [Nonempty κ] (hext : ∀ a b, (∀ k, has k a = has k b) → a = b)
    (hmono : ∀ k, Monotone (has k)) (hgrow : ∀ x, Grows x (pass x)) (hpass : IsLayered has pass)
    (x : List β) : pass^[x.length + 1] x = pass^[x.length] x := by
  refine eq_of_layers hext fun k => ?_
  rcases layer_iterate (hmono k) hgrow hpass x x.length with hstill | hlt
  · exact hstill
  · have hle : totalSize Bool.toNat (layer has k (pass^[x.length + 1] x)) ≤ x.length := by
      have h := totalSize_le (x := layer has k (pass^[x.length + 1] x)) fun b _ => Bool.toNat_le b
      rwa [layer, List.length_map, length_iterate hgrow, Nat.mul_one] at h
    omega

-- Repeating such a pass comes to an end by itself, in time.
theorem settles_of_isLayered [DecidableEq β] [Nonempty κ] (has : κ → β → Bool)
    (hext : ∀ a b, (∀ k, has k a = has k b) → a = b) (hmono : ∀ k, Monotone (has k))
    (hgrow : ∀ x, Grows x (pass x)) (hpass : IsLayered has pass) {n fuel : Nat}
    (hlength : x.length = n) (hfuel : n < fuel) :
    Settles pass x (fixedPoint pass fuel x).2 (fixedPoint pass fuel x).1 ∧
      (fixedPoint pass fuel x).2 ≤ n + 1 := by
  subst hlength
  exact settles_fixedPoint (iterate_length_stable hext hmono hgrow hpass x) hfuel

end Layers

namespace Analysis

variable {g : Grammar} {marks : List Bool} {first x y : List IndexSet}
variable {s t : IndexSet} {lhs i j k : Nat}

def holds (k : Nat) (s : IndexSet) : Bool := s.contains k

-- To the sets at the same places, a symbol belongs or does not belong.
theorem layer_holds_eq_iff : layer holds k x = layer holds k y ↔
    x.length = y.length ∧ ∀ i, k ∈ setOf x i ↔ k ∈ setOf y i := by
  have hget : ∀ (x : List IndexSet) i,
      (layer holds k x)[i]?.getD false = true ↔ k ∈ setOf x i := by
    intro x i
    rw [layer, List.getElem?_map, setOf, List.getD_eq_getElem?_getD]
    cases x[i]? with
    | none => simp
    | some s => exact IndexSet.contains_iff
  constructor
  · intro h
    refine ⟨by simpa [layer] using congrArg List.length h, fun i => ?_⟩
    rw [← hget, ← hget, h]
  · rintro ⟨hlength, h⟩
    refine List.ext_getElem (by simpa [layer] using hlength) fun i hx hy => ?_
    have hi : (layer holds k x)[i]?.getD false = true ↔ (layer holds k y)[i]?.getD false = true := by
      rw [hget, hget, h i]
    rw [List.getElem?_eq_getElem hx, List.getElem?_eq_getElem hy] at hi
    exact Bool.eq_iff_iff.mpr hi

theorem layer_union (h : layer holds k x = layer holds k y) (ht : k ∈ s ↔ k ∈ t) (i : Nat) :
    layer holds k (x.modify i fun u => u.union s) =
      layer holds k (y.modify i fun u => u.union t) := by
  rw [layer_holds_eq_iff] at h ⊢
  obtain ⟨hlength, hmem⟩ := h
  refine ⟨by simpa using hlength, fun j => ?_⟩
  rw [mem_setOf_modify_union, mem_setOf_modify_union, hmem j, hlength, ht]

theorem layer_insert (h : layer holds k x = layer holds k y) (i j : Nat) :
    layer holds k (x.modify i fun u => u.insert j) =
      layer holds k (y.modify i fun u => u.insert j) := by
  rw [layer_holds_eq_iff] at h ⊢
  obtain ⟨hlength, hmem⟩ := h
  refine ⟨by simpa using hlength, fun j => ?_⟩
  rw [mem_setOf_modify_insert, mem_setOf_modify_insert, hmem j, hlength]

theorem mem_firstOf_congr (h : layer holds k x = layer holds k y) (s : List Symbol) :
    k ∈ (firstOf g marks x s).1 ↔ k ∈ (firstOf g marks y s).1 := by
  induction s with
  | nil => rfl
  | cons z s ih =>
      cases z with
      | nonterminal i =>
          rw [mem_firstOf_cons_nonterminal, mem_firstOf_cons_nonterminal, ih,
            (layer_holds_eq_iff.mp h).2 i]
      | terminal i => rfl
      | endOfInput => rfl

theorem isLayered_firstStep (r : Rule) : IsLayered holds (firstStep g marks · r) :=
  fun _ _ _ h => layer_union h (mem_firstOf_congr h r.rhs) r.lhs

theorem isLayered_followAt (s : List Symbol) :
    IsLayered holds (followAt g marks first lhs i s) := by
  intro k x y h
  have hmore := layer_union (s := (firstOf g marks first s).1) h Iff.rfl i
  unfold followAt
  split
  · exact layer_union hmore ((layer_holds_eq_iff.mp hmore).2 lhs) i
  · exact hmore

theorem isLayered_followStep (s : List Symbol) :
    IsLayered holds (followStep g marks first lhs s) := by
  induction s with
  | nil => exact fun _ _ _ h => h
  | cons z s ih =>
      intro k x y h
      cases z with
      | nonterminal i => exact ih k _ _ (isLayered_followAt s k x y h)
      | terminal i => exact ih k x y h
      | endOfInput => exact ih k x y h

theorem isLayered_cornerAt : IsLayered holds (cornerAt lhs i) := by
  intro k x y h
  have hmore := layer_insert h lhs i
  exact layer_union hmore ((layer_holds_eq_iff.mp hmore).2 i) lhs

theorem isLayered_cornerStep (s : List Symbol) :
    IsLayered holds (cornerStep marks lhs s) := by
  induction s with
  | nil => exact fun _ _ _ h => h
  | cons z s ih =>
      intro k x y h
      cases z with
      | nonterminal i =>
          have hat : layer holds k (cornerAt lhs i x) = layer holds k (cornerAt lhs i y) :=
            isLayered_cornerAt k x y h
          rw [cornerStep_cons_nonterminal, cornerStep_cons_nonterminal]
          split
          · exact ih k _ _ hat
          · exact hat
      | terminal i => exact h
      | endOfInput => exact h

-- Passes over sets of symbols, one for each non-terminal.
theorem settles_sets {ρ : Type} (step : List IndexSet → ρ → List IndexSet) (items : List ρ)
    (x : List IndexSet) (hgrow : ∀ x r, Grows x (step x r))
    (hstep : ∀ r, IsLayered holds (step · r)) {n fuel : Nat} (hlength : x.length = n)
    (hfuel : n < fuel) :
    let pass := fun x => items.foldl step x
    Settles pass x (fixedPoint pass fuel x).2 (fixedPoint pass fuel x).1 ∧
      (fixedPoint pass fuel x).2 ≤ n + 1 := by
  refine settles_of_isLayered holds (fun s t h => IndexSet.ext fun k => ?_) (fun k s t h => ?_)
    (grows_foldl hgrow items) (.foldl fun r _ => hstep r) hlength hfuel
  · rw [← IndexSet.contains_iff, ← IndexSet.contains_iff]
    exact Bool.eq_iff_iff.mp (h k)
  · exact fun hk => IndexSet.contains_iff.mpr (h k (IndexSet.contains_iff.mp hk))

-- There is one kind of marks only.
theorem settles_nullable (g : Grammar) :
    let n := g.nonterminals.length
    Settles (nullablePass g) (List.replicate n false) g.analyse.passes.nullable
        g.analyse.nullable ∧ g.analyse.passes.nullable ≤ n + 1 := by
  refine settles_of_isLayered (fun _ : Unit => id) (fun _ _ h => h ()) (fun _ _ _ h => h)
    (grows_foldl nullableStep_grows g.rules) ?_ List.length_replicate (Nat.lt_succ_self _)
  intro _ x y h
  rw [layer, layer, List.map_id, List.map_id] at h
  rw [h]

-- Passes end with one that changes nothing, and there are at most so many of them.
structure SettlesWithin {α : Type} (bound : Nat) (pass : α → α) (x : α) (passes : Nat) (z : α) :
    Prop where
  settles : Settles pass x passes z
  pos : 1 ≤ passes
  le : passes ≤ bound

-- Each of the four computations of an analysis ends by itself, with one pass more than there are
-- non-terminals at most.
theorem passes_bounded (g : Grammar) :
    let n := g.nonterminals.length
    let empty : List IndexSet := List.replicate n .empty
    let a := g.analyse
    SettlesWithin (n + 1) (nullablePass g) (List.replicate n false) a.passes.nullable a.nullable ∧
      SettlesWithin (n + 1) (firstPass g a.nullable) empty a.passes.first a.first ∧
      SettlesWithin (n + 1) (followPass g a.nullable a.first) (followStart g) a.passes.follow
        a.follow ∧
      SettlesWithin (n + 1) (cornerPass g a.nullable) empty a.passes.corners a.corners := by
  intro n empty a
  have hcolumns : n < n * g.columnCount + 1 :=
    Nat.lt_succ_of_le (Nat.le_mul_of_pos_right n (Nat.succ_pos _))
  have hcorners : n < n * n + 1 := Nat.lt_succ_of_le (Nat.le_mul_self n)
  have hnullable := settles_nullable g
  have hfirst := settles_sets (firstStep g a.nullable) g.rules empty (firstStep_grows g a.nullable)
    isLayered_firstStep List.length_replicate hcolumns
  have hfollow := settles_sets
    (fun follow (r : Rule) => followStep g a.nullable a.first r.lhs r.rhs follow) g.rules
    (followStart g) (fun follow r => followStep_grows r.lhs r.rhs follow)
    (fun r => isLayered_followStep r.rhs) (show _ = n by simp [followStart, n]) hcolumns
  have hcorner := settles_sets
    (fun corners (r : Rule) => cornerStep a.nullable r.lhs r.rhs corners) g.rules empty
    (fun corners r => cornerStep_grows r.lhs r.rhs corners)
    (fun r => isLayered_cornerStep r.rhs) List.length_replicate hcorners
  exact ⟨⟨hnullable.1, hnullable.1.pos, hnullable.2⟩, ⟨hfirst.1, hfirst.1.pos, hfirst.2⟩,
    ⟨hfollow.1, hfollow.1.pos, hfollow.2⟩, ⟨hcorner.1, hcorner.1.pos, hcorner.2⟩⟩

-- Three non-terminals in a row, with the rules in the order that lets a terminal go up by one
-- non-terminal in each pass, take four passes for FIRST.
example :
    let chain : Grammar :=
      { name := text "G"
        terminals := [⟨text "x", 120⟩]
        nonterminals := [text "S", text "A", text "B"]
        rules := [⟨0, 0, [.nonterminal 1]⟩, ⟨1, 1, [.nonterminal 2]⟩, ⟨2, 2, [.terminal 0]⟩]
        declared := []
        start := 0 }
    chain.analyse.passes = ⟨1, 4, 2, 3⟩ := by decide +kernel

end Analysis

end Lookahead
