import Lookahead.Proofs.Grammar.Description
import Lookahead.Proofs.Table.Reduced
import Lookahead.Table.Cache
import Mathlib.Data.List.Induction

/-!
What a cache of tables answers after any history of requests. The table is the one for a grammar
that has been requested and has the same rendering, which is the grammar itself if no name holds a
quote. Other grammars may share a rendering and get the table of the one that came first.
-/

namespace Lookahead.TableCache

-- The cache after a request. It stays as it is if the table cannot be built.
def serve (c : TableCache) (g : Grammar) : TableCache :=
  match c.request g with
  | .ok (c, _) => c
  | .error _ => c

-- A new cache after a history of requests.
def after (options : List Policy) (history : List Grammar) : TableCache :=
  history.foldl serve (new options)

-- The table that a request is answered with.
def table (c : TableCache) (g : Grammar) : Except Table.Fault Table :=
  (c.request g).map (·.2.table)

-- The cache with a table for another grammar.
def insert (c : TableCache) (g : Grammar) (t : Table) : TableCache :=
  { c with entries := c.entries ++ [(g.fingerprint, t)] }

-- Every table in a cache has been built for a grammar that has been requested.
structure IsJustified (c : TableCache) (options : List Policy) (history : List Grammar) : Prop where
  options_eq : c.options = options
  entries : ∀ e ∈ c.entries, ∃ h ∈ history,
    e.1 = h.fingerprint ∧ Table.build h.analyse options = .ok e.2

variable {c : TableCache} {options : List Policy} {history : List Grammar} {g : Grammar}

-- A request is answered from the cache, or by a new table.
theorem request_cases (c : TableCache) (g : Grammar) :
    (∃ i, ∃ e ∈ c.entries, e.1 = g.fingerprint ∧ c.request g = .ok (c, ⟨i, e.2, false⟩)) ∨
      c.request g = (Table.build g.analyse c.options).map fun t =>
        (c.insert g t, ⟨c.entries.length, t, true⟩) := by
  have hmap : ∀ built : Except Table.Fault Table, (do
      let t ← built
      return (c.insert g t, (⟨c.entries.length, t, true⟩ : Answer))) =
        built.map fun t => (c.insert g t, ⟨c.entries.length, t, true⟩) := by
    intro built
    cases built <;> rfl
  cases hi : c.entries.findIdx? (·.1 = g.fingerprint) with
  | none =>
      rw [← hmap]
      exact .inr (by simp only [request, hi]; rfl)
  | some i =>
      cases hf : c.entries.find? (·.1 = g.fingerprint) with
      | none =>
          rw [← hmap]
          exact .inr (by simp only [request, hi, hf]; rfl)
      | some e =>
          refine .inl ⟨i, e, List.mem_of_find?_eq_some hf, by simpa using List.find?_some hf, ?_⟩
          simp only [request, hi, hf]
          rfl

theorem IsJustified.serve (hc : c.IsJustified options history) (g : Grammar) :
    (c.serve g).IsJustified options (history ++ [g]) := by
  have hkept : c.IsJustified options (history ++ [g]) := by
    refine ⟨hc.options_eq, fun e he => ?_⟩
    obtain ⟨h, hh, hbuilt⟩ := hc.entries e he
    exact ⟨h, List.mem_append_left [g] hh, hbuilt⟩
  rcases request_cases c g with ⟨i, e, -, -, hrequest⟩ | hrequest
  · rw [TableCache.serve, hrequest]
    exact hkept
  · rw [TableCache.serve, hrequest]
    cases hb : Table.build g.analyse c.options with
    | error fault => exact hkept
    | ok t =>
        refine ⟨hc.options_eq, fun e he => ?_⟩
        rcases List.mem_append.mp he with he | he
        · exact hkept.entries e he
        · rw [List.mem_singleton.mp he]
          exact ⟨g, List.mem_append_right history List.mem_cons_self, rfl, hc.options_eq ▸ hb⟩

theorem isJustified_after (options : List Policy) (history : List Grammar) :
    (after options history).IsJustified options history := by
  induction history using List.reverseRecOn with
  | nil => exact ⟨rfl, fun e he => nomatch he⟩
  | append_singleton history g ih =>
      rw [after, List.foldl_append]
      exact ih.serve g

-- The answer to a request after any others. MD5 is taken not to confuse the grammars in question.
theorem table_after (hfirst : ∀ h ∈ g :: history, h.IsFirstBuild)
    (hdigest : ∀ h ∈ history,
      Md5.hexDigest h.describe.render = Md5.hexDigest g.describe.render →
        h.describe.render = g.describe.render) (options : List Policy) :
    (∃ h ∈ g :: history, h.describe.render = g.describe.render ∧
      (after options history).table g = Table.build h.analyse options) ∧
    ((∀ h ∈ g :: history, h.HasPlainNames) →
      (after options history).table g = Table.build g.analyse options) := by
  have hanswer : ∃ h ∈ g :: history, h.describe.render = g.describe.render ∧
      (after options history).table g = Table.build h.analyse options := by
    have hc := isJustified_after options history
    rcases request_cases (after options history) g with ⟨i, e, he, hkey, hrequest⟩ | hrequest
    · obtain ⟨h, hh, hkey', hb⟩ := hc.entries e he
      have hsame : Md5.hexDigest h.describe.render = Md5.hexDigest g.describe.render :=
        List.append_cancel_left (hkey'.symm.trans hkey)
      exact ⟨h, List.mem_cons_of_mem g hh, hdigest h hh hsame, by rw [table, hrequest, hb]; rfl⟩
    · refine ⟨g, List.mem_cons_self, rfl, ?_⟩
      rw [table, hrequest, hc.options_eq]
      cases Table.build g.analyse options <;> rfl
  refine ⟨hanswer, fun hplain => ?_⟩
  obtain ⟨h, hh, hrender, htable⟩ := hanswer
  have hg := List.mem_cons_self (a := g) (l := history)
  rw [htable, (hfirst g hg).eq_of_render (hfirst h hh) (hplain g hg) (hplain h hh) hrender]

-- Two non-terminals in a row, of which the second one has no rules.
def sequence : Grammar :=
  let rules : List Rule :=
    [⟨0, 0, [.nonterminal 1, .nonterminal 2]⟩,
      ⟨1, 1, [.nonterminal 2, .nonterminal 1, .nonterminal 2, .terminal 0]⟩,
      ⟨2, 1, [.nonterminal 2, .terminal 0]⟩]
  { name := text "G", terminals := [⟨text "x", 0x78⟩],
    nonterminals := [text "S", text "A", text "B"], rules := rules, declared := rules, start := 0 }

-- One non-terminal with quotes in its name, so that it reads like the two.
def disguise : Grammar :=
  let rules : List Rule :=
    [⟨0, 0, [.nonterminal 1]⟩, ⟨1, 1, [.nonterminal 1, .terminal 0]⟩, ⟨2, 1, [.terminal 0]⟩]
  { name := text "G", terminals := [⟨text "x", 0x78⟩],
    nonterminals := [text "S", text "A\",\"B"], rules := rules, declared := rules, start := 0 }

theorem isFirstBuild_sequence : sequence.IsFirstBuild := by
  apply GrammarSource.isFirstBuild (s := ⟨text "G", sequence.terminals, sequence.nonterminals,
    text "S",
    [⟨text "S", [⟨text "A", .nonterminal⟩, ⟨text "B", .nonterminal⟩]⟩,
      ⟨text "A", [⟨text "B", .nonterminal⟩, ⟨text "A", .nonterminal⟩, ⟨text "B", .nonterminal⟩,
        ⟨text "x", .terminal⟩]⟩,
      ⟨text "A", [⟨text "B", .nonterminal⟩, ⟨text "x", .terminal⟩]⟩]⟩)
  decide +kernel

theorem isFirstBuild_disguise : disguise.IsFirstBuild := by
  apply GrammarSource.isFirstBuild (s := ⟨text "G", disguise.terminals, disguise.nonterminals,
    text "S",
    [⟨text "S", [⟨text "A\",\"B", .nonterminal⟩]⟩,
      ⟨text "A\",\"B", [⟨text "A\",\"B", .nonterminal⟩, ⟨text "x", .terminal⟩]⟩,
      ⟨text "A\",\"B", [⟨text "x", .terminal⟩]⟩]⟩)
  decide +kernel

theorem hasPlainNames_sequence : sequence.HasPlainNames :=
  ⟨by decide, by decide, by decide⟩

theorem hasPlainNames_hiddenRecursion : Table.hiddenRecursion.HasPlainNames :=
  ⟨by decide, by decide, by decide⟩

-- Another grammar in the cache does not get in the way, nor does the same one.
theorem table_after_sequence :
    (after [.bestEffort] [Table.hiddenRecursion, sequence]).table sequence =
      Table.build sequence.analyse [.bestEffort] := by
  have hdigest : ∀ h ∈ [Table.hiddenRecursion, sequence],
      Md5.hexDigest h.describe.render = Md5.hexDigest sequence.describe.render →
        h.describe.render = sequence.describe.render := by
    decide +kernel
  refine (table_after ?_ hdigest [.bestEffort]).2 ?_
  · simp [isFirstBuild_sequence, Table.isFirstBuild_hiddenRecursion]
  · simp [hasPlainNames_sequence, hasPlainNames_hiddenRecursion]

-- A left-recursive grammar gets the empty table of another grammar, and no error.
theorem table_disguise :
    sequence.IsFirstBuild ∧ disguise.IsFirstBuild ∧ sequence.fingerprint = disguise.fingerprint ∧
      ∃ answer expected, (after [] [sequence]).table disguise = .ok answer ∧
        Table.build disguise.analyse [] = .ok expected ∧
        (answer.error?, answer.conflicts.length, answer.size) = (none, 0, 0) ∧
        (expected.error?.isSome, expected.conflicts.length, expected.size) = (true, 1, 2) := by
  have hkey : sequence.fingerprint = disguise.fingerprint := by
    have hrender : sequence.describe.render = disguise.describe.render := by decide +kernel
    rw [Grammar.fingerprint, Grammar.fingerprint, hrender]
  obtain ⟨answer, hb, hanswer⟩ := exists_ok_of_any (x := Table.build sequence.analyse [])
    (p := fun t => (t.error?, t.conflicts.length, t.size) = (none, 0, 0)) (by decide +kernel)
  obtain ⟨expected, hb', hexpected⟩ := exists_ok_of_any (x := Table.build disguise.analyse [])
    (p := fun t => (t.error?.isSome, t.conflicts.length, t.size) = (true, 1, 2)) (by decide +kernel)
  have hcache : after [] [sequence] = (new []).insert sequence answer := by
    show (new []).serve sequence = _
    rcases request_cases (new []) sequence with ⟨-, e, he, -⟩ | hrequest
    · cases he
    · have hbuild : Table.build sequence.analyse (new []).options = .ok answer := hb
      rw [serve, hrequest, hbuild]
      rfl
  refine ⟨isFirstBuild_sequence, isFirstBuild_disguise, hkey, answer, expected, ?_, hb',
    of_decide_eq_true hanswer, of_decide_eq_true hexpected⟩
  rw [hcache]
  have hrequest : ((new []).insert sequence answer).request disguise =
      .ok ((new []).insert sequence answer, ⟨0, answer, false⟩) := by
    simp only [request, insert, new, List.nil_append, List.findIdx?_cons, List.find?_cons, hkey,
      decide_true, if_true]
    rfl
  rw [table, hrequest]
  rfl

end Lookahead.TableCache
