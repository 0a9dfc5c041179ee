import Lookahead.Lexis.Lexer
import Lookahead.Proofs.Lexis.Munch

/-!
How a lexer goes on behind input that it cannot match, on whatever machine it runs. A stretch that
is reported and left out has no match at its front. It begins one, as far as its last byte, so that
matches that start inside of it are lost.
-/

namespace Lookahead

namespace Lexer

variable {l : Lexer} {input rest t : Text} {n position stop p q : Nat}
variable {type : Option TokenType} {g : Grammar} {patterns : List Pattern} {machine : Machine}
variable {stretches : List (Nat × Nat)} {means : Meaning} {expressions : List Text}

-- What is passed over from a position on: matches without a token, and stretches that are
-- reported, each with the position where it starts and the one where the lexer goes on.
inductive Passes (l : Lexer) (input : Text) : (position : Nat) → List (Nat × Nat) →
    (stop : Nat) → Prop
  | nothing {position : Nat} : Passes l input position [] position
  | stretch {position n stop : Nat} {stretches : List (Nat × Nat)} (hlt : position < input.length)
      (hstuck : l.munch (input.drop position) = .stuck n)
      (h : Passes l input (position + n) stretches stop) :
      Passes l input position ((position, position + n) :: stretches) stop
  | blank {position n stop : Nat} {stretches : List (Nat × Nat)} (hlt : position < input.length)
      (hhit : l.munch (input.drop position) = .hit n none)
      (h : Passes l input (position + n) stretches stop) : Passes l input position stretches stop

def report (l : Lexer) (input : Text) (stretch : Nat × Nat) : Text :=
  l.matcher.report input stretch.1 (stretch.2 - stretch.1)

-- How a call ends where it stops passing over: at the end of the input, or with a token.
inductive Ends (l : Lexer) (input : Text) (stop : Nat) : Option Token → List Text → Scan → Prop
  | exhausted (h : stop = input.length) :
      Ends l input stop (some (.endAt (UInt64.ofNat input.length))) [] ⟨l, input, stop, []⟩
  | token {n : Nat} {type : TokenType} (hlt : stop < input.length)
      (h : l.munch (input.drop stop) = .hit n (some type)) :
      Ends l input stop (Scan.tokenAt stop ((input.drop stop).take n) type).1
        (Scan.tokenAt stop ((input.drop stop).take n) type).2
        ⟨l, input, stop + n, input.drop (stop + n)⟩

-- Where a call goes on behind `n` bytes.
theorem drop_behind {b : UInt8} {tail : Text} (hrest : b :: tail = input.drop position)
    (hn : 0 < n ∧ n ≤ (b :: tail).length) : position < input.length ∧
      position + n ≤ input.length ∧ tail.drop (n - 1) = input.drop (position + n) := by
  obtain ⟨hpos, hle⟩ := hn
  have hlength := congrArg List.length hrest
  rw [List.length_drop] at hlength
  refine ⟨by omega, by omega, ?_⟩
  rw [← List.drop_drop, ← hrest]
  obtain ⟨n, rfl⟩ := Nat.exists_eq_succ_of_ne_zero (Nat.ne_of_gt hpos)
  rfl

-- A call passes over what it leaves out, reports the stretches, and ends.
theorem nextFrom_spec (l : Lexer) (log : List Text) (hrest : rest = input.drop position)
    (hle : position ≤ input.length) :
    ∃ stretches stop token messages next, Passes l input position stretches stop ∧
      Ends l input stop token messages next ∧
      Scan.nextFrom l input log position rest =
        (⟨token, log.reverse ++ (stretches.map (report l input) ++ messages)⟩, next) := by
  fun_induction Scan.nextFrom l input log position rest with
  | case1 log position =>
      have hend : position = input.length := by
        have hlength := congrArg List.length hrest
        rw [List.length_nil, List.length_drop] at hlength
        omega
      exact ⟨[], position, _, _, _, .nothing, .exhausted hend, by simp⟩
  | case2 log position b tail n hmunch ih =>
      obtain ⟨hlt, hle, hdrop⟩ :=
        drop_behind hrest (l.matcher.stuck_bounds (List.cons_ne_nil b tail) hmunch)
      obtain ⟨stretches, stop, token, messages, next, hpasses, hends, hnext⟩ := ih hdrop hle
      refine ⟨(position, position + n) :: stretches, stop, token, messages, next,
        .stretch hlt (hrest ▸ hmunch) hpasses, hends, ?_⟩
      rw [hnext]
      simp [report]
  | case3 log position b tail n hmunch ih =>
      obtain ⟨hlt, hle, hdrop⟩ := drop_behind hrest (l.matcher.hit_bounds hmunch)
      obtain ⟨stretches, stop, token, messages, next, hpasses, hends, hnext⟩ := ih hdrop hle
      exact ⟨stretches, stop, token, messages, next, .blank hlt (hrest ▸ hmunch) hpasses, hends,
        hnext⟩
  | case4 log position b tail n type hmunch token messages htoken =>
      obtain ⟨hlt, hle, hdrop⟩ := drop_behind hrest (l.matcher.hit_bounds hmunch)
      rw [hrest] at hmunch htoken
      refine ⟨[], position, _, _, _, .nothing, .token hlt hmunch, ?_⟩
      rw [htoken, hdrop]
      rfl

-- A scan of an input, from its position on.
structure IsAt (l : Lexer) (input : Text) (s : Scan) : Prop where
  lexer_eq : s.lexer = l
  input_eq : s.input = input
  rest_eq : s.rest = input.drop s.position
  position_le : s.position ≤ input.length

theorem Ends.isAt {token : Option Token} {messages : List Text} {s : Scan}
    (h : Ends l input stop token messages s) : IsAt l input s := by
  cases h with
  | exhausted hstop =>
      subst hstop
      exact ⟨rfl, rfl, (List.drop_length).symm, Nat.le_refl _⟩
  | @token n type hlt hmunch =>
      have hn := (l.matcher.hit_bounds hmunch).2
      rw [List.length_drop] at hn
      exact ⟨rfl, rfl, rfl, show stop + n ≤ input.length by omega⟩

theorem Ends.exists_hit {token : Option Token} {messages : List Text} {s : Scan}
    (h : Ends l input stop token messages s) (hlt : stop < input.length) :
    ∃ n type, s.position = stop + n ∧ l.munch (input.drop stop) = .hit n (some type) := by
  cases h with
  | exhausted hstop => exact absurd hstop (Nat.ne_of_lt hlt)
  | token _ hmunch => exact ⟨_, _, rfl, hmunch⟩

theorem IsAt.next_spec {s : Scan} (h : IsAt l input s) :
    ∃ stretches stop messages, Passes l input s.position stretches stop ∧
      Ends l input stop s.next.1.token messages s.next.2 ∧
      s.next.1.messages = stretches.map (report l input) ++ messages := by
  obtain ⟨stretches, stop, token, messages, next, hpasses, hends, hnext⟩ :=
    nextFrom_spec l [] h.rest_eq h.position_le
  have heq : s.next = (⟨token, stretches.map (report l input) ++ messages⟩, next) := by
    rw [Scan.next, h.lexer_eq, h.input_eq, hnext]
    rfl
  rw [heq]
  exact ⟨stretches, stop, messages, hpasses, hends, rfl⟩

-- The states of a scan between its calls.
inductive Reached (l : Lexer) (input : Text) : Scan → Prop
  | start : Reached l input (l.scan input)
  | next {s : Scan} (h : Reached l input s) : Reached l input s.next.2

theorem Reached.isAt {s : Scan} (h : Reached l input s) : IsAt l input s := by
  induction h with
  | start => exact ⟨rfl, rfl, rfl, Nat.zero_le _⟩
  | next _ ih =>
      obtain ⟨stretches, stop, messages, -, hends, -⟩ := ih.next_spec
      exact hends.isAt

def piece (input : Text) (p q : Nat) : Text := (input.drop p).take (q - p)

-- A stretch that is left out, from one position up to another. No match starts at the first one,
-- but the text begins one as long as it has not reached the second one.
structure IsStretch (means : Meaning) (expressions : List Text) (input : Text) (p q : Nat) :
    Prop where
  lt : p < q
  le : q ≤ input.length
  unmatched : ∀ source ∈ expressions, ∀ i, p < i → i ≤ input.length →
    ¬means source (piece input p i)
  begins : ∀ i, p ≤ i → i < q → means.Begins expressions (piece input p i)
  stop : q = input.length ∨ ¬means.Begins expressions (piece input p q)

theorem isStretch_of_stuck (hp : p < input.length) (hn : 0 < n ∧ n ≤ (input.drop p).length)
    (h : means.IsStuck expressions (input.drop p) n) :
    IsStretch means expressions input p (p + n) := by
  obtain ⟨hpos, hle⟩ := hn
  rw [List.length_drop] at hle
  refine ⟨by omega, by omega, ?_, ?_, ?_⟩
  · intro source hsource i hi hlen
    exact h.unmatched source hsource (i - p) (by omega) (by rw [List.length_drop]; omega)
  · intro i hi hlt
    rcases h.stuck with ⟨-, hbegins⟩ | ⟨hbegins, -⟩
    · exact hbegins.of_prefix (List.take_prefix _ _)
    · exact hbegins.of_prefix (List.take_prefix_take_left (by omega))
  · rcases h.stuck with ⟨hend, -⟩ | ⟨-, hstop⟩
    · rw [List.length_drop] at hend
      exact .inl (by omega)
    · exact .inr (by rwa [piece, Nat.add_sub_cancel_left])

-- If every byte that begins a match is one, only single bytes are left out.
theorem IsStretch.eq_succ (h : IsStretch means expressions input p q)
    (hbytes : ∀ b, means.Begins expressions [b] → ∃ source ∈ expressions, means source [b]) :
    q = p + 1 := by
  by_contra hne
  have hlt := h.lt
  have hle := h.le
  have hpiece : (piece input p (p + 1)).length = 1 := by
    rw [piece, List.length_take, List.length_drop]
    omega
  obtain ⟨b, hb⟩ := List.length_eq_one_iff.mp hpiece
  have hbegins := h.begins (p + 1) (by omega) (by omega)
  rw [hb] at hbegins
  obtain ⟨source, hsource, hmeans⟩ := hbytes b hbegins
  exact h.unmatched source hsource (p + 1) (by omega) (by omega) (hb ▸ hmeans)

theorem Passes.isStretch (hlongest : l.matcher.IsLongest means)
    (h : Passes l input position stretches stop) : ∀ stretch ∈ stretches,
      IsStretch means (l.rules.map LexerRule.source) input stretch.1 stretch.2 := by
  induction h with
  | nothing => exact List.forall_mem_nil _
  | @stretch position n stop stretches hlt hstuck _ ih =>
      have hne : input.drop position ≠ [] := fun hnil =>
        Nat.not_le.mpr hlt (List.drop_eq_nil_iff.mp hnil)
      refine List.forall_mem_cons.mpr ⟨?_, ih⟩
      exact isStretch_of_stuck hlt (l.matcher.stuck_bounds hne hstuck) (hlongest.stuck hne hstuck)
  | blank _ _ _ ih => exact ih

-- The expressions of a lexer: those of the literals of its grammar, and behind them its patterns.
def sources (g : Grammar) (patterns : List Pattern) : List Text :=
  g.terminals.filterMap (fun t => (g.literal? t.name).map fun _ => literalRegex t.name) ++
    patterns.map Pattern.regex

theorem source_of_patternRule {pattern : Pattern} {rule : LexerRule}
    (h : patternRule g pattern = .ok rule) : rule.source = pattern.regex := by
  unfold patternRule at h
  split at h
  · cases h
    rfl
  · split at h
    · cases h
      rfl
    · cases h

theorem sources_of_mapM {rules : List LexerRule} (h : patterns.mapM (patternRule g) = .ok rules) :
    rules.map LexerRule.source = patterns.map Pattern.regex := by
  induction patterns generalizing rules with
  | nil =>
      cases h
      rfl
  | cons pattern patterns ih =>
      rw [List.mapM_cons] at h
      cases hrule : patternRule g pattern with
      | error e => simp [hrule, bind, Except.bind] at h
      | ok rule =>
          cases hrules : patterns.mapM (patternRule g) with
          | error e => simp [hrule, hrules, bind, Except.bind] at h
          | ok rules =>
              simp only [hrule, hrules, bind, Except.bind, pure, Except.pure] at h
              cases h
              rw [List.map_cons, List.map_cons, source_of_patternRule hrule, ih hrules]

theorem sources_of_buildOn (h : buildOn machine (some g) patterns = .ok l) :
    l.rules.map LexerRule.source = sources g patterns := by
  unfold buildOn at h
  cases hrules : patterns.mapM (patternRule g) with
  | error e => simp [hrules, bind, Except.bind] at h
  | ok rules =>
      simp only [hrules, bind, Except.bind] at h
      split at h
      · cases h
        simp only [sources, literals, List.map_append, List.map_filterMap, Option.map_map,
          sources_of_mapM hrules]
        rfl
      · cases h

-- Whatever machine takes longest matches, a call reports the stretches that it leaves out, in
-- whatever state of a scan. Where it stops ahead of the end of the input, it takes a longest match.
theorem stretches_spec (hbuild : buildOn machine (some g) patterns = .ok l)
    (hlongest : l.matcher.IsLongest means) (input : Text) {s : Scan} (hs : Reached l input s) :
    ∃ stretches stop messages, Passes l input s.position stretches stop ∧
      Ends l input stop s.next.1.token messages s.next.2 ∧
      s.next.1.messages = stretches.map (report l input) ++ messages ∧
      (∀ stretch ∈ stretches,
        IsStretch means (sources g patterns) input stretch.1 stretch.2 ∧
        ((∀ b, means.Begins (sources g patterns) [b] →
            ∃ source ∈ sources g patterns, means source [b]) → stretch.2 = stretch.1 + 1)) ∧
      (stop < input.length → ∃ n type, s.next.2.position = stop + n ∧
        means.IsLongestMatch l.rules (input.drop stop) n (some type)) := by
  obtain ⟨stretches, stop, messages, hpasses, hends, hmessages⟩ := hs.isAt.next_spec
  refine ⟨stretches, stop, messages, hpasses, hends, hmessages, fun stretch hstretch => ?_, ?_⟩
  · have h := hpasses.isStretch hlongest stretch hstretch
    rw [sources_of_buildOn hbuild] at h
    exact ⟨h, h.eq_succ⟩
  · intro hlt
    obtain ⟨n, type, hposition, hhit⟩ := hends.exists_hit hlt
    exact ⟨n, type, hposition, hlongest.hit hhit⟩

-- A grammar with the literals `ab` and `c`, and the rules of its lexer.
def pairAndSingle : Grammar :=
  { name := text "G"
    terminals := [⟨text "ab", 97⟩, ⟨text "c", 99⟩]
    nonterminals := [text "S"]
    rules := [⟨0, 0, [.terminal 0]⟩, ⟨1, 0, [.terminal 1]⟩]
    declared := [⟨0, 0, [.terminal 0]⟩, ⟨1, 0, [.terminal 1]⟩]
    start := 0 }

def pairAndSingleRules : List LexerRule := [⟨text "ab", some 97⟩, ⟨text "c", some 99⟩]

def pairAndSingleRegexes : List Regex :=
  [.cat (.bytes (.single 97)) (.bytes (.single 98)), .bytes (.single 99)]

def pairAndSingleLexer : Lexer :=
  ⟨pairAndSingleRules, (Automaton.ofRegexes pairAndSingleRegexes).matcher pairAndSingleRules⟩

theorem build_pairAndSingle : build (some pairAndSingle) [] = .ok pairAndSingleLexer := by rfl

-- The states of its automaton are told apart already.
set_option maxRecDepth 2000 in
theorem isLongest_pairAndSingle : pairAndSingleLexer.matcher.IsLongest RegexReader.Means := by
  have hmerge : Automaton.ofRegexes pairAndSingleRegexes =
      Automaton.unmerged pairAndSingleRegexes :=
    Automaton.merge_eq_self (by decide +kernel) (by decide +kernel)
  have hread : pairAndSingleRules.mapM Automaton.readRule? = some pairAndSingleRegexes := by
    decide +kernel
  exact Automaton.isLongest_matcher (Automaton.map_readRule?_of_mapM hread)
    (List.cons_ne_nil _ _) fun t => congrArg (fun a => a.outcome t) hmerge

theorem stretches_pairAndSingle : ∃ l, buildOn Automaton.machine (some pairAndSingle) [] = .ok l ∧
    l.matcher.IsLongest RegexReader.Means ∧ Reached l (text "ac") (l.scan (text "ac")) ∧
    ∃ stretches stop messages, Passes l (text "ac") 0 stretches stop ∧
      Ends l (text "ac") stop (l.scan (text "ac")).next.1.token messages
        (l.scan (text "ac")).next.2 ∧
      (l.scan (text "ac")).next.1.messages = stretches.map (report l (text "ac")) ++ messages ∧
      (∀ stretch ∈ stretches,
        IsStretch RegexReader.Means (sources pairAndSingle []) (text "ac") stretch.1 stretch.2 ∧
        ((∀ b, Meaning.Begins RegexReader.Means (sources pairAndSingle []) [b] →
            ∃ source ∈ sources pairAndSingle [], RegexReader.Means source [b]) →
          stretch.2 = stretch.1 + 1)) ∧
      (stop < (text "ac").length → ∃ n type, (l.scan (text "ac")).next.2.position = stop + n ∧
        Meaning.IsLongestMatch RegexReader.Means l.rules ((text "ac").drop stop) n (some type)) :=
  ⟨_, build_pairAndSingle, isLongest_pairAndSingle, .start,
    stretches_spec build_pairAndSingle isLongest_pairAndSingle (text "ac") .start⟩

-- A match is lost that starts where the match of a longer literal fails.
set_option maxRecDepth 2000 in
theorem stretch_hides_match : ∃ l, build (some pairAndSingle) [] = .ok l ∧
    l.matcher.IsLongest RegexReader.Means ∧ Passes l (text "ac") 0 [(0, 2)] 2 ∧
    (l.scan (text "ac")).next.1 = ⟨some (.endAt 2), [report l (text "ac") (0, 2)]⟩ ∧
    ∃ source ∈ sources pairAndSingle [], RegexReader.Means source (piece (text "ac") 1 2) := by
  have hstuck : pairAndSingleLexer.munch [0x61, 0x63] = .stuck 2 := by decide +kernel
  have hpasses : Passes pairAndSingleLexer (text "ac") 0 [(0, 0 + 2)] (0 + 2) :=
    .stretch (show 0 < 2 by decide) hstuck .nothing
  refine ⟨_, build_pairAndSingle, isLongest_pairAndSingle, hpasses, ?_, ?_⟩
  · show (Scan.nextFrom pairAndSingleLexer (text "ac") [] 0 [0x61, 0x63]).1 = _
    rw [Scan.nextFrom, hstuck]
    show (Scan.nextFrom pairAndSingleLexer (text "ac")
      [report pairAndSingleLexer (text "ac") (0, 2)] 2 []).1 = _
    rw [Scan.nextFrom]
    rfl
  · exact ⟨text "c", by decide, .bytes (.single 99), by rfl, .bytes (by decide)⟩

end Lexer

end Lookahead
