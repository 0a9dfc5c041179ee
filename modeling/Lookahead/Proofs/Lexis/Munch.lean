import Lookahead.Lexis.Munch
import Lookahead.Proofs.Lexis.Automaton
import Lookahead.Proofs.Lexis.Longest
import Lookahead.Proofs.Lexis.RegexReader

/-!
What the machine with an automaton takes from the front of a text. It takes a longest match, for the
first rule that has it, and is stuck where no match can be gone on with, unless merging the states
of the automaton has changed what can be seen of it.
-/

namespace Lookahead

namespace Automaton

variable {a : Automaton} {rules : List LexerRule} {state state' taken n i : Nat} {b : UInt8}
  {t : Text} {best : Option (Nat × Option TokenType)} {type : Option TokenType} {rs : List Regex}

-- The type of the rule that is accepted behind a text, if one is.
def typeBehind (a : Automaton) (rules : List LexerRule) (state : Nat) (t : Text) :
    Option (Option TokenType) :=
  (t.foldlM a.step state).bind fun state =>
    ((a.accepted? state).bind (rules[·]?)).map LexerRule.type

theorem typeBehind_start (t : Text) : a.typeBehind rules a.start t =
    ((a.outcome t).join.bind (rules[·]?)).map LexerRule.type := by
  unfold typeBehind outcome run
  cases t.foldlM a.step a.start <;> rfl

theorem foldlM_step_cons (hstep : a.step state b = some state') (t : Text) :
    (b :: t).foldlM a.step state = t.foldlM a.step state' := by
  rw [List.foldlM_cons, hstep]
  rfl

theorem typeBehind_halted (hstep : a.step state b = none) (t : Text) :
    a.typeBehind rules state (b :: t) = none := by
  simp [typeBehind, hstep]

theorem typeBehind_cons (hstep : a.step state b = some state') (t : Text) :
    a.typeBehind rules state (b :: t) = a.typeBehind rules state' t := by
  rw [typeBehind, foldlM_step_cons hstep, typeBehind]

theorem hit?_eq (length : Nat) : a.hit? rules state length =
    (a.typeBehind rules state []).map fun type => (length, type) := by
  unfold hit? typeBehind
  cases h : a.accepted? state with
  | none => simp [h]
  | some i => cases hrule : rules[i]? <;> simp [h, hrule]

-- Behind more than `i` bytes of a text, no rule is accepted.
def SilentBeyond (a : Automaton) (rules : List LexerRule) (state : Nat) (t : Text) (i : Nat) :
    Prop :=
  ∀ j, i < j → j ≤ t.length → a.typeBehind rules state (t.take j) = none

namespace SilentBeyond

theorem nil : SilentBeyond a rules state [] 0 :=
  fun _ hj hle => absurd hj (Nat.not_lt.mpr hle)

theorem halted (hstep : a.step state b = none) : SilentBeyond a rules state (b :: t) 0 := by
  intro j hj _
  obtain ⟨j, rfl⟩ := Nat.exists_eq_succ_of_ne_zero (Nat.ne_of_gt hj)
  rw [List.take_succ_cons, typeBehind_halted hstep]

theorem cons (hstep : a.step state b = some state') (h : SilentBeyond a rules state' t i) :
    SilentBeyond a rules state (b :: t) (i + 1) := by
  intro j hj hle
  obtain ⟨j, rfl⟩ := Nat.exists_eq_succ_of_ne_zero (Nat.ne_zero_of_lt hj)
  rw [List.take_succ_cons, typeBehind_cons hstep]
  exact h j (Nat.lt_of_succ_lt_succ hj) (Nat.le_of_succ_le_succ hle)

theorem cons_zero (hstep : a.step state b = some state')
    (hnone : a.typeBehind rules state' [] = none) (h : SilentBeyond a rules state' t 0) :
    SilentBeyond a rules state (b :: t) 0 := by
  intro j hj hle
  rcases Nat.eq_or_lt_of_le (Nat.succ_le_of_lt hj) with rfl | hj
  · exact (typeBehind_cons hstep []).trans hnone
  · exact h.cons hstep j hj hle

end SilentBeyond

-- The last match of all is taken, one that is known before or one further on.
theorem munchFrom_hit_last (h : munchFrom a rules state taken best t = .hit n type) :
    ∃ i, SilentBeyond a rules state t i ∧
      ((i = 0 ∧ best = some (n, type)) ∨
        (0 < i ∧ n = taken + i ∧ a.typeBehind rules state (t.take i) = some type)) := by
  induction t generalizing state taken best with
  | nil => exact ⟨0, .nil, .inl ⟨rfl, settleMunch_eq_hit h⟩⟩
  | cons b t ih =>
      rw [munchFrom] at h
      cases hstep : a.step state b with
      | none =>
          rw [hstep] at h
          exact ⟨0, .halted hstep, .inl ⟨rfl, settleMunch_eq_hit h⟩⟩
      | some state' =>
          rw [hstep] at h
          obtain ⟨i, hsilent, ⟨rfl, hbest⟩ | ⟨-, rfl, htype⟩⟩ := ih h
          · rw [hit?_eq] at hbest
            cases hnext : a.typeBehind rules state' [] with
            | none =>
                rw [hnext] at hbest
                exact ⟨0, hsilent.cons_zero hstep hnext, .inl ⟨rfl, hbest⟩⟩
            | some type' =>
                rw [hnext] at hbest
                cases hbest
                exact ⟨1, hsilent.cons hstep,
                  .inr ⟨Nat.one_pos, rfl, (typeBehind_cons hstep []).trans hnext⟩⟩
          · refine ⟨i + 1, hsilent.cons hstep, .inr ⟨Nat.succ_pos i, by omega, ?_⟩⟩
            rw [List.take_succ_cons, typeBehind_cons hstep]
            exact htype

-- Stuck at the end of the text, or where the automaton does not go on, with no match on the way.
structure IsStuckFrom (a : Automaton) (rules : List LexerRule) (state : Nat) (t : Text) (n : Nat) :
    Prop where
  unmatched : SilentBeyond a rules state t 0
  stuck : (n = t.length ∧ (t.foldlM a.step state).isSome) ∨
    (0 < n ∧ ((t.take (n - 1)).foldlM a.step state).isSome ∧
      (t.take n).foldlM a.step state = none)

namespace IsStuckFrom

theorem nil : IsStuckFrom a rules state [] 0 where
  unmatched := .nil
  stuck := .inl ⟨rfl, rfl⟩

-- The first byte is the one at which the automaton does not go on.
theorem halted (hstep : a.step state b = none) : IsStuckFrom a rules state (b :: t) 1 where
  unmatched := .halted hstep
  stuck := .inr ⟨Nat.one_pos, rfl, by simp [hstep]⟩

theorem cons (hstep : a.step state b = some state') (hnone : a.typeBehind rules state' [] = none)
    (h : IsStuckFrom a rules state' t n) : IsStuckFrom a rules state (b :: t) (n + 1) := by
  refine ⟨h.unmatched.cons_zero hstep hnone, ?_⟩
  rcases h.stuck with ⟨rfl, hsome⟩ | ⟨hpos, hsome, hhalted⟩
  · exact .inl ⟨rfl, by rwa [foldlM_step_cons hstep]⟩
  · refine .inr ⟨Nat.succ_pos n, ?_, ?_⟩
    · obtain ⟨n, rfl⟩ := Nat.exists_eq_succ_of_ne_zero (Nat.ne_of_gt hpos)
      rw [Nat.add_sub_cancel, List.take_succ_cons, foldlM_step_cons hstep]
      exact hsome
    · rw [List.take_succ_cons, foldlM_step_cons hstep]
      exact hhalted

end IsStuckFrom

theorem munchFrom_stuck (h : munchFrom a rules state taken best t = .stuck n) :
    best = none ∧ ∃ k, n = taken + k ∧ IsStuckFrom a rules state t k := by
  induction t generalizing state taken best with
  | nil =>
      obtain ⟨hbest, rfl⟩ := settleMunch_eq_stuck h
      exact ⟨hbest, 0, rfl, .nil⟩
  | cons b t ih =>
      rw [munchFrom] at h
      cases hstep : a.step state b with
      | none =>
          rw [hstep] at h
          obtain ⟨hbest, rfl⟩ := settleMunch_eq_stuck h
          exact ⟨hbest, 1, rfl, .halted hstep⟩
      | some state' =>
          rw [hstep] at h
          obtain ⟨hbest, k, rfl, hk⟩ := ih h
          obtain ⟨hhit, rfl⟩ := Option.or_eq_none_iff.mp hbest
          rw [hit?_eq, Option.map_eq_none_iff] at hhit
          exact ⟨rfl, k + 1, by omega, hk.cons hstep hhit⟩

open RegexReader (Means)

-- An automaton that cannot be told apart from the one for some expressions before its states are
-- merged.
def IsFor (a : Automaton) (rs : List Regex) : Prop := ∀ t, a.outcome t = (unmerged rs).outcome t

theorem merge_eq_self (hstart : a.merge.start = a.start) (hnext : a.merge.next = a.next) :
    a.merge = a := by
  have hkept : a.merge = ⟨a.merge.start, a.classes, a.merge.next, a.accepted⟩ := rfl
  rw [hkept, hstart, hnext]

theorem map_readRule?_of_mapM (h : rules.mapM readRule? = some rs) :
    rules.map readRule? = rs.map some := by
  induction rules generalizing rs with
  | nil =>
      cases h
      rfl
  | cons rule rules ih =>
      simp only [List.mapM_cons, Option.bind_eq_bind, Option.bind_eq_some_iff, Option.pure_def,
        Option.some.injEq] at h
      obtain ⟨r, hr, rs, hrs, rfl⟩ := h
      rw [List.map_cons, List.map_cons, hr, ih hrs]

theorem means_of_readRule? {rule : LexerRule} {r : Regex} (h : readRule? rule = some r) :
    Means rule.source t ↔ r.Matches t := by
  have hread : RegexReader.read? rule.source = some r := (Option.filter_eq_some_iff.mp h).1
  constructor
  · rintro ⟨r', hr', hmatches⟩
    rw [hread] at hr'
    cases hr'
    exact hmatches
  · exact fun hmatches => ⟨r, hread, hmatches⟩

section Read

variable (hread : rules.map readRule? = rs.map some)
include hread

-- There is an expression where there is a rule, and it means the same.
theorem exists_regex {rule : LexerRule} (hrule : rules[i]? = some rule) :
    ∃ r, rs[i]? = some r ∧ ∀ t, Means rule.source t ↔ r.Matches t := by
  have hplace : (rs.map some)[i]? = some (readRule? rule) := by
    rw [← hread, List.getElem?_map, hrule]
    rfl
  rw [List.getElem?_map] at hplace
  obtain ⟨r, hr, heq⟩ := Option.map_eq_some_iff.mp hplace
  exact ⟨r, hr, fun t => means_of_readRule? heq.symm⟩

theorem exists_rule {r : Regex} (hr : rs[i]? = some r) :
    ∃ rule, rules[i]? = some rule ∧ ∀ t, Means rule.source t ↔ r.Matches t := by
  have hplace : (rules.map readRule?)[i]? = some (some r) := by
    rw [hread, List.getElem?_map, hr]
    rfl
  rw [List.getElem?_map] at hplace
  obtain ⟨rule, hrule, heq⟩ := Option.map_eq_some_iff.mp hplace
  exact ⟨rule, hrule, fun t => means_of_readRule? heq⟩

theorem begins_iff : Means.Begins (rules.map LexerRule.source) t ↔ Begins rs t := by
  constructor
  · rintro ⟨_, hsource, u, hmeans⟩
    obtain ⟨rule, hrule, rfl⟩ := List.mem_map.mp hsource
    obtain ⟨i, hi⟩ := List.mem_iff_getElem?.mp hrule
    obtain ⟨r, hr, hiff⟩ := exists_regex hread hi
    exact ⟨r, List.mem_of_getElem? hr, u, (hiff _).mp hmeans⟩
  · rintro ⟨r, hr, u, hmatches⟩
    obtain ⟨i, hi⟩ := List.mem_iff_getElem?.mp hr
    obtain ⟨rule, hrule, hiff⟩ := exists_rule hread hi
    exact ⟨rule.source, List.mem_map_of_mem (List.mem_of_getElem? hrule), u, (hiff _).mpr hmatches⟩

theorem isProductive_of_map (r : Regex) (hr : r ∈ rs) : r.IsProductive := by
  obtain ⟨rule, -, heq⟩ := List.mem_map.mp (hread ▸ List.mem_map_of_mem hr)
  exact RegexReader.isProductive_of_read? (Option.filter_eq_some_iff.mp heq).1

variable (hne : rs ≠ []) (ha : a.IsFor rs)
include hne ha

-- The automaton goes on with what begins a match, and the type behind a text is that of the first
-- rule that matches it.
theorem isSome_run_iff (t : Text) :
    (a.run t).isSome ↔ Means.Begins (rules.map LexerRule.source) t := by
  rw [begins_iff hread, ← not_iff_not, ← (outcome_unmerged (isProductive_of_map hread) hne t).1,
    ← ha]
  simp [outcome]

theorem exists_first_of_typeBehind (h : a.typeBehind rules a.start t = some type) :
    ∃ (place : Nat) (rule : LexerRule), rules[place]? = some rule ∧ rule.type = type ∧
      Means rule.source t ∧ ∀ i < place, ∀ earlier : LexerRule,
        rules[i]? = some earlier → ¬Means earlier.source t := by
  rw [typeBehind_start] at h
  obtain ⟨rule, hrule, rfl⟩ := Option.map_eq_some_iff.mp h
  obtain ⟨place, hplace, hrule⟩ := Option.bind_eq_some_iff.mp hrule
  rw [Option.join_eq_some_iff, ha, (outcome_unmerged (isProductive_of_map hread) hne t).2] at hplace
  obtain ⟨⟨r, hr, hmatches⟩, hfirst⟩ := hplace
  obtain ⟨r', hr', hmeans⟩ := exists_regex hread hrule
  rw [hr] at hr'
  cases hr'
  refine ⟨place, rule, hrule, rfl, (hmeans t).mpr hmatches, fun i hi earlier hearlier => ?_⟩
  obtain ⟨r, hr, hmeans⟩ := exists_regex hread hearlier
  exact mt (hmeans t).mp (hfirst i hi r hr)

theorem not_means_of_typeBehind (h : a.typeBehind rules a.start t = none) :
    ∀ rule ∈ rules, ¬Means rule.source t := by
  intro rule hrule hmeans
  obtain ⟨i, hi⟩ := List.mem_iff_getElem?.mp hrule
  obtain ⟨r, hr, hiff⟩ := exists_regex hread hi
  obtain ⟨place, hfirst⟩ :=
    Regex.exists_matchesFirst (List.mem_of_getElem? hr) ((hiff t).mp hmeans)
  obtain ⟨⟨r', hr', -⟩, -⟩ := id hfirst
  obtain ⟨rule', hrule', -⟩ := exists_rule hread hr'
  rw [← (outcome_unmerged (isProductive_of_map hread) hne t).2, ← ha] at hfirst
  rw [typeBehind_start, hfirst, Option.join_some, Option.bind_some, hrule'] at h
  cases h

theorem isLongest_matcher : (a.matcher rules).IsLongest Means where
  hit {t n type} h := by
    obtain ⟨i, hsilent, ⟨-, hbest⟩ | ⟨-, rfl, htype⟩⟩ := munchFrom_hit_last h
    · cases hbest
    · rw [Nat.zero_add]
      refine ⟨exists_first_of_typeBehind hread hne ha htype, fun rule hrule j hj hle => ?_⟩
      exact not_means_of_typeBehind hread hne ha (hsilent j hj hle) rule hrule
  stuck {t n} _ h := by
    obtain ⟨-, k, rfl, hstuck⟩ := munchFrom_stuck h
    rw [Nat.zero_add]
    refine ⟨List.forall_mem_map.mpr fun rule hrule i hi hle => ?_, ?_⟩
    · exact not_means_of_typeBehind hread hne ha (hstuck.unmatched i hi hle) rule hrule
    · simp only [← isSome_run_iff hread hne ha]
      refine hstuck.stuck.imp_right fun ⟨_, hsome, hhalted⟩ => ⟨hsome, ?_⟩
      rw [run, hhalted]
      exact Bool.false_ne_true

end Read

-- Rules that can be read have a matcher that takes longest matches.
theorem exists_isLongest (hread : rules.map readRule? = rs.map some) (hne : rs ≠ []) :
    ∃ m : Matcher rules, m.IsLongest Means :=
  ⟨(unmerged rs).matcher rules, isLongest_matcher hread hne fun _ => rfl⟩

theorem isLongest_machine {m : Matcher rules} (h : machine rules = some m)
    (hmerge : ∀ rs, rules.mapM readRule? = some rs → (ofRegexes rs).IsFor rs) :
    m.IsLongest Means := by
  unfold machine at h
  split at h
  · cases h
  · next hempty =>
    obtain ⟨rs, hrs, rfl⟩ := Option.map_eq_some_iff.mp h
    have hread := map_readRule?_of_mapM hrs
    refine isLongest_matcher hread (fun hnil => hempty ?_) (hmerge rs hrs)
    rw [hnil, List.map_nil, List.map_eq_nil_iff] at hread
    rw [hread]
    rfl

end Automaton

end Lookahead
