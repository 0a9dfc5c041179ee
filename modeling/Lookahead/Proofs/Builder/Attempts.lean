import Lookahead.Proofs.Builder
import Mathlib.Order.Nat

/-!
Attempts to build a grammar. An attempt that fails leaves the rules it has resolved behind, in
front of those of later attempts. Nothing else of it shows in the grammar that is built in the end.
-/

namespace Lookahead.Builder

variable {b : Builder} {g : Grammar} {history : List Operation}

theorem build_of_built (hb : b.built = some g) : b.build = (b, .ok g) := by
  rcases b.build_cases with ⟨g', hg, he⟩ | ⟨hn, -⟩ | ⟨hn, -⟩
  · rw [hb] at hg
    cases hg
    exact he
  · simp [hb] at hn
  · simp [hb] at hn

-- A grammar that is built stays so.
theorem built_perform (hb : b.built = some g) (op : Operation) : (b.perform op).built = some g := by
  by_cases hop : op = .build
  · subst hop
    rw [perform, build_of_built hb]
    exact hb
  · rw [(b.perform_frame hop).1, hb]

theorem built_foldl (hb : b.built = some g) (history : List Operation) :
    (history.foldl perform b).built = some g := by
  induction history generalizing b with
  | nil => exact hb
  | cons op rest ih => exact ih (built_perform hb op)

theorem built_of_perform {op : Operation} (hn : b.built = none)
    (hg : (b.perform op).built = some g) : op = .build ∧ b.build.2 = .ok g := by
  by_cases hop : op = .build
  · subst hop
    refine ⟨rfl, ?_⟩
    rw [perform] at hg
    rcases b.build_cases with ⟨g', hb, -⟩ | ⟨-, -, e, he⟩ | ⟨-, -, start, -, -, he⟩
    · simp [hn] at hb
    · simp [he, hn] at hg
    · rw [he] at hg ⊢
      exact congrArg Except.ok (Option.some.inj hg)
  · rw [(b.perform_frame hop).1, hn] at hg
    cases hg

-- A grammar that is returned has been built at some time by an attempt, after others had failed.
theorem exists_first_success (hn : b.built = none)
    (h : (history.foldl perform b).build.2 = .ok g) :
    ∃ before later, history = before ++ later ∧ (before.foldl perform b).built = none ∧
      (before.foldl perform b).build.2 = .ok g := by
  induction history generalizing b with
  | nil => exact ⟨[], [], rfl, hn, h⟩
  | cons op rest ih =>
      cases hb : (b.perform op).built with
      | none =>
          obtain ⟨before, later, rfl, hbefore, hg⟩ := ih hb h
          exact ⟨op :: before, later, rfl, hbefore, hg⟩
      | some g' =>
          obtain ⟨rfl, hg'⟩ := built_of_perform hn hb
          rw [List.foldl_cons, build_of_built (built_foldl hb rest)] at h
          cases h
          exact ⟨[], .build :: rest, rfl, hn, hg'⟩

-- Nothing but an attempt looks at the rules that are left over.
theorem perform_resolved (b : Builder) (rules : List Rule) {op : Operation} (hop : op ≠ .build) :
    { b with resolved := rules }.perform op = { b.perform op with resolved := rules } := by
  have hclose : ∀ h, ({ b with resolved := rules }.close h).1 =
      { (b.close h).1 with resolved := rules } := by
    intro h
    simp only [close]
    split <;> rfl
  cases op with
  | terminal name type =>
      have hname : { b with resolved := rules }.nameFault? name = b.nameFault? name := rfl
      have htype : { b with resolved := rules }.typeFault? name type = b.typeFault? name type := rfl
      simp only [perform, terminal, hname, htype]
      split
      · rfl
      · split <;> rfl
  | nonterminal name =>
      have hname : { b with resolved := rules }.nameFault? name = b.nameFault? name := rfl
      simp only [perform, nonterminal, hname]
      split
      · rfl
      · split <;> rfl
  | setStart name => rfl
  | beginRule lhs => rfl
  | append h ref => rfl
  | close h => exact hclose h
  | closeEmpty h =>
      simp only [perform, closeEmpty]
      cases hd : b.declarations[h.index]? with
      | none => exact hclose h
      | some d =>
          by_cases hempty : d.rhs.isEmpty
          · simp only [hempty, if_true]
            exact hclose h
          · simp only [hempty]
            rfl
  | build => exact absurd rfl hop

theorem foldl_perform_resolved (rules : List Rule) (hops : Operation.build ∉ history) :
    history.foldl perform { b with resolved := rules } =
      { history.foldl perform b with resolved := rules } := by
  induction history generalizing b with
  | nil => rfl
  | cons op rest ih =>
      rw [List.mem_cons, not_or] at hops
      rw [List.foldl_cons, perform_resolved b rules (Ne.symm hops.1), ih hops.2, List.foldl_cons]

-- The rules that the attempts in a history leave behind.
def leftovers (b : Builder) : List Operation → List Rule
  | [] => []
  | op :: rest => (if op = .build then b.attempt else []) ++ (b.perform op).leftovers rest

-- If there is no grammar in the end, then an attempt on the way has failed.
theorem perform_build_failed (hn : (history.foldl perform (b.perform .build)).built = none) :
    b.perform .build = { b with resolved := b.resolved ++ b.attempt } ∧
      (b.attempt ≠ [] → b.attempt.length < b.closedDeclarations.length) := by
  rw [perform] at hn ⊢
  rcases b.build_cases with ⟨g, hb, he⟩ | ⟨-, hlt, e, he⟩ | ⟨-, -, start, -, -, he⟩
  · rw [he, built_foldl hb] at hn
    cases hn
  · rw [he]
    exact ⟨rfl, hlt⟩
  · rw [he, built_foldl rfl] at hn
    cases hn

-- As long as attempts fail, a builder is what it would be without them, but for what is left over.
theorem foldl_perform_failed (hn : (history.foldl perform b).built = none) :
    history.foldl perform b =
      { (history.filter (· ≠ .build)).foldl perform b with
        resolved := b.resolved ++ b.leftovers history } := by
  induction history generalizing b with
  | nil => simp [leftovers]
  | cons op rest ih =>
      rw [List.foldl_cons] at hn ⊢
      rw [ih hn, leftovers]
      by_cases hop : op = .build
      · subst hop
        have hrest : Operation.build ∉ rest.filter (· ≠ .build) := by simp
        rw [(perform_build_failed hn).1, foldl_perform_resolved _ hrest]
        simp
      · simp [hop, (b.perform_frame hop).2]

-- Whether rules are what the closed declarations mean by their names, one by one.
structure IsResolution (b : Builder) (rules : List Rule) : Prop where
  length_eq : rules.length = b.closedDeclarations.length
  resolve_eq : ∀ (i : Nat) (d : Declaration), b.closedDeclarations[i]? = some d →
    ∃ r, rules[i]? = some r ∧ b.resolve i d = .ok r

theorem serial_of_head?_attempt {r : Rule} (h : b.attempt.head? = some r) : r.serial = 0 := by
  rw [List.head?_eq_getElem?] at h
  unfold attempt at h
  split at h
  · exact (resolveFrom_getElem? h).1
  · cases h

theorem serial_of_head?_leftovers {r : Rule} (h : (b.leftovers history).head? = some r) :
    r.serial = 0 := by
  induction history generalizing b with
  | nil => cases h
  | cons op rest ih =>
      rw [leftovers, List.head?_append, Option.or_eq_some_iff] at h
      rcases h with h | ⟨-, h⟩
      · split at h
        · exact serial_of_head?_attempt h
        · cases h
      · exact ih h

theorem length_closedDeclarations (b : Builder) :
    b.closedDeclarations.length = b.closed.countP (· < b.declarations.length) := by
  have hall : ∀ closed : List Nat, (closed.filterMap (b.declarations[·]?)).length =
      closed.countP (· < b.declarations.length) := by
    intro closed
    induction closed with
    | nil => rfl
    | cons i rest ih =>
        by_cases hi : i < b.declarations.length
        · simp [hi, ih]
        · simp [hi, ih]
  exact hall b.closed

-- Declarations are not taken back.
theorem declarations_perform (b : Builder) (op : Operation) :
    b.closed.Sublist (b.perform op).closed ∧
      b.declarations.length ≤ (b.perform op).declarations.length := by
  by_cases hop : op = .build
  · subst hop
    rcases b.build_cases with ⟨g, -, he⟩ | ⟨-, -, e, he⟩ | ⟨-, -, start, -, -, he⟩ <;>
      rw [perform, he] <;> exact ⟨.refl _, le_rfl⟩
  · have hchanges := b.changes_perform hop
    generalize b.perform op = b' at hchanges ⊢
    cases hchanges with
    | beginRule lhs => exact ⟨.refl _, by simp⟩
    | append h ref => exact ⟨.refl _, by simp [append]⟩
    | close hn h => exact ⟨List.sublist_append_left _ _, le_rfl⟩
    | _ => exact ⟨.refl _, le_rfl⟩

theorem length_closedDeclarations_foldl (b : Builder) (history : List Operation) :
    b.closedDeclarations.length ≤ (history.foldl perform b).closedDeclarations.length := by
  induction history generalizing b with
  | nil => exact le_rfl
  | cons op rest ih =>
      obtain ⟨hclosed, hlen⟩ := b.declarations_perform op
      have hstep : b.closedDeclarations.length ≤ (b.perform op).closedDeclarations.length := by
        rw [length_closedDeclarations, length_closedDeclarations]
        refine (List.countP_mono_left fun i _ hi => ?_).trans hclosed.countP_le
        exact decide_eq_true ((of_decide_eq_true hi).trans_le hlen)
      exact hstep.trans (ih (b.perform op))

-- Where something is left over, the numbers start again before the last rule is reached.
theorem exists_restart (hn : (history.foldl perform b).built = none)
    (hleft : b.leftovers history ≠ []) :
    ∃ m, 0 < m ∧ m < (history.foldl perform b).closedDeclarations.length ∧
      ∀ rules : List Rule, (∀ r, rules.head? = some r → r.serial = 0) →
        ∀ r, (b.leftovers history ++ rules)[m]? = some r → r.serial = 0 := by
  induction history generalizing b with
  | nil => exact absurd rfl hleft
  | cons op rest ih =>
      rw [leftovers] at hleft ⊢
      by_cases hchunk : (if op = .build then b.attempt else []) = []
      · rw [hchunk, List.nil_append] at hleft ⊢
        exact ih hn hleft
      · obtain ⟨rfl, hattempt⟩ : op = .build ∧ b.attempt ≠ [] := by simpa using hchunk
        refine ⟨b.attempt.length, List.length_pos_iff.mpr hattempt, ?_, ?_⟩
        · have hlt := (perform_build_failed hn).2 hattempt
          exact hlt.trans_le (length_closedDeclarations_foldl b (.build :: rest))
        · intro rules hrules r hr
          rw [if_pos rfl, List.append_assoc, List.getElem?_append_right le_rfl, Nat.sub_self,
            ← List.head?_eq_getElem?, List.head?_append, Option.or_eq_some_iff] at hr
          rcases hr with hr | ⟨-, hr⟩
          · exact serial_of_head?_leftovers hr
          · exact hrules r hr

theorem IsResolution.serial_eq {rules : List Rule} (h : b.IsResolution rules) {i : Nat} {r : Rule}
    (hi : rules[i]? = some r) : r.serial = i := by
  have hlt : i < b.closedDeclarations.length :=
    h.length_eq ▸ (List.getElem?_eq_some_iff.mp hi).1
  obtain ⟨r', hr', hresolve⟩ := h.resolve_eq i _ (List.getElem?_eq_getElem hlt)
  rw [hi] at hr'
  obtain rfl := Option.some.inj hr'
  exact (resolve_eq_ok hresolve).1

-- Behind left over rules some rule is not found at its number.
theorem leftovers_eq_nil_iff {rules : List Rule} (hn : (history.foldl perform b).built = none)
    (hrules : (history.foldl perform b).IsResolution rules) :
    b.leftovers history = [] ↔
      ∀ r ∈ rules, (b.leftovers history ++ rules)[r.serial]? = some r := by
  constructor
  · intro hleft r hr
    obtain ⟨i, hi⟩ := List.mem_iff_getElem?.mp hr
    rw [hleft, List.nil_append, hrules.serial_eq hi, hi]
  · intro hfound
    by_contra hleft
    obtain ⟨m, hpos, hlt, hrestart⟩ := exists_restart hn hleft
    rw [← hrules.length_eq] at hlt
    have hm : rules[m]? = some rules[m] := List.getElem?_eq_getElem hlt
    have hserial : rules[m].serial = m := hrules.serial_eq hm
    have hfirst : ∀ r, rules.head? = some r → r.serial = 0 := by
      intro r hr
      exact hrules.serial_eq (List.head?_eq_getElem? ▸ hr)
    have hat := hfound _ (List.getElem_mem hlt)
    rw [hserial] at hat
    have hzero := hrestart rules hfirst _ hat
    omega

theorem resolveFrom_resolved (b : Builder) (rules : List Rule) (serial : Nat)
    (ds : List Declaration) :
    { b with resolved := rules }.resolveFrom serial ds = b.resolveFrom serial ds := by
  induction ds generalizing serial with
  | nil => rfl
  | cons d rest ih =>
      have hd : { b with resolved := rules }.resolve serial d = b.resolve serial d := rfl
      simp only [resolveFrom, hd, ih]

-- All that an attempt owes to those before is what they have left over.
theorem build_of_leftovers (hfresh : b.IsFresh) {rules : List Rule}
    (h : { b with resolved := rules }.build.2 = .ok g) :
    ∃ g₀, b.build.2 = .ok g₀ ∧ b.IsResolution g₀.rules ∧ g₀.declared = g₀.rules ∧
      g = { g₀ with rules := rules ++ g₀.rules } := by
  rcases { b with resolved := rules }.build_cases with
    ⟨g', hb, -⟩ | ⟨-, -, e, he⟩ | ⟨-, hf, start, hs, hr, he⟩
  · exact absurd (hfresh.2.symm.trans hb) (by simp)
  · rw [he] at h
    cases h
  · rw [he] at h
    have hs' : b.resolveStart = .ok start := hs
    have hf' : b.failure = none := hf
    have hfrom := (resolveFrom_resolved b rules 0 b.closedDeclarations).symm.trans hr
    generalize hown : { b with resolved := rules }.attempt = own at hfrom
    have hbuild : b.build.2 = .ok ⟨b.name, b.terminals, b.nonterminals, own, own, start⟩ := by
      simp only [build, hfresh.1, hfresh.2, hf', hs', hfrom, List.nil_append]
    obtain ⟨hlen, hresolve⟩ := resolveFrom_eq_none hfrom
    refine ⟨_, hbuild, ⟨hlen, by simpa using hresolve⟩, rfl, ?_⟩
    rw [← Except.ok.inj h, assemble, hown]

-- A grammar is what it would be without the attempts that failed before, but for the rules they
-- have left over, which stand in front of its own. With any of them there are too many rules, and
-- some are not found at their number.
theorem build_after_attempts (name : Text) (history : List Operation) (g : Grammar)
    (h : (after name history).build.2 = .ok g) :
    ∃ before later g₀, history = before ++ later ∧ (after name before).built = none ∧
      (after name (before.filter (· ≠ .build))).build.2 = .ok g₀ ∧
      (after name before).IsResolution g₀.rules ∧ g₀.declared = g₀.rules ∧
      g = { g₀ with rules := (new name).leftovers before ++ g₀.rules } ∧
      ((new name).leftovers before = [] ↔ ∀ r ∈ g.declared, g.rules[r.serial]? = some r) := by
  obtain ⟨before, later, hsplit, hn, hbuild⟩ := exists_first_success (b := new name) rfl h
  have hfailed : after name before = { after name (before.filter (· ≠ .build)) with
      resolved := (new name).leftovers before } := foldl_perform_failed hn
  have hfresh : (after name (before.filter (· ≠ .build))).IsFresh :=
    isFresh_after name _ (by simp)
  rw [show before.foldl perform (new name) = after name before from rfl, hfailed] at hbuild
  obtain ⟨g₀, hg₀, hres, hdeclared, rfl⟩ := build_of_leftovers hfresh hbuild
  have hres' : (after name before).IsResolution g₀.rules := by
    rw [hfailed]
    exact ⟨hres.length_eq, hres.resolve_eq⟩
  refine ⟨before, later, g₀, hsplit, hn, hg₀, hres', hdeclared, rfl, ?_⟩
  rw [hdeclared]
  exact leftovers_eq_nil_iff hn hres'

-- A rule is resolved, the next one fails for want of a terminal, which is then added.
def retried : List Operation :=
  [.terminal (text "a") 0x61, .nonterminal (text "S"), .setStart (text "S"),
    .beginRule (text "S"), .append ⟨0⟩ ⟨text "a", .terminal⟩, .close ⟨0⟩,
    .beginRule (text "S"), .append ⟨1⟩ ⟨text "b", .terminal⟩, .close ⟨1⟩,
    .build, .terminal (text "b") 0x62]

def retriedGrammar : Grammar :=
  { name := text "G", terminals := [⟨text "a", 0x61⟩, ⟨text "b", 0x62⟩],
    nonterminals := [text "S"],
    rules := [⟨0, 0, [.terminal 0]⟩, ⟨0, 0, [.terminal 0]⟩, ⟨1, 0, [.terminal 1]⟩],
    declared := [⟨0, 0, [.terminal 0]⟩, ⟨1, 0, [.terminal 1]⟩], start := 0 }

theorem build_retried : (after (text "G") retried).build.2 = .ok retriedGrammar :=
  eq_ok_of_toOption (by decide +kernel)

theorem build_after_attempts_retried :
    (after (text "G") retried).build.2 = .ok retriedGrammar ∧
      ∃ before later g₀, retried = before ++ later ∧
        (after (text "G") (before.filter (· ≠ .build))).build.2 = .ok g₀ ∧
        retriedGrammar =
          { g₀ with rules := (new (text "G")).leftovers before ++ g₀.rules } := by
  obtain ⟨before, later, g₀, hsplit, -, hg₀, -, -, hg, -⟩ :=
    build_after_attempts (text "G") retried retriedGrammar build_retried
  exact ⟨build_retried, before, later, g₀, hsplit, hg₀, hg⟩

-- Two rules are closed, three are built, and number 1 is not the rule with that number.
theorem retried_misnumbers :
    (after (text "G") retried).build.2 = .ok retriedGrammar ∧
      (after (text "G") retried).closedDeclarations.length = 2 ∧
      retriedGrammar.rules.map (·.serial) = [0, 0, 1] ∧
      retriedGrammar.rules ≠ retriedGrammar.declared :=
  ⟨build_retried, by decide +kernel, by decide, by decide⟩

end Lookahead.Builder
