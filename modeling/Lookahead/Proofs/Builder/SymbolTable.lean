import Lookahead.Proofs.Builder.Attempts
import Mathlib.Data.List.Nodup

/-!
The symbol table of a builder. Every name and every token type is taken at most once, so that a
look-up finds what has been registered. The table is frozen as soon as the grammar is built.
-/

namespace Lookahead

-- A key that is taken once is found where it is.
theorem findIdx?_eq_some_iff_of_nodup {α β : Type} [DecidableEq β] {key : α → β} {l : List α}
    (h : (l.map key).Nodup) {x : β} {i : Nat} :
    l.findIdx? (key · = x) = some i ↔ ∃ a, l[i]? = some a ∧ key a = x := by
  rw [List.findIdx?_eq_some_iff_getElem]
  constructor
  · rintro ⟨hi, hx, -⟩
    exact ⟨l[i], List.getElem?_eq_getElem hi, of_decide_eq_true hx⟩
  · rintro ⟨a, ha, rfl⟩
    obtain ⟨hi, rfl⟩ := List.getElem?_eq_some_iff.mp ha
    refine ⟨hi, decide_eq_true rfl, fun j hj he => ?_⟩
    have hlast : i < (l.map key).length := by simpa using hi
    have hfront : j < (l.map key).length := Nat.lt_trans hj hlast
    have hsame : (l.map key)[j] = (l.map key)[i] := by simpa using he
    exact absurd ((h.getElem_inj_iff).mp hsame) (Nat.ne_of_lt hj)

-- Symbols with names and token types of their own, none of them reserved.
structure IsSymbolTable (terminals : List Terminal) (nonterminals : List Text) : Prop where
  names_nodup : (terminals.map (·.name) ++ nonterminals).Nodup
  names_ne : ∀ name ∈ terminals.map (·.name) ++ nonterminals,
    name ≠ [] ∧ name ≠ epsilonName ∧ name ≠ endOfInputName
  types_nodup : (terminals.map (·.type)).Nodup
  types_ne : ∀ t ∈ terminals, t.type ≠ TokenType.endOfInput

theorem symbolNamed?_eq_none_iff {terminals : List Terminal} {nonterminals : List Text}
    {name : Text} : symbolNamed? terminals nonterminals name = none ↔
      name ∉ terminals.map (·.name) ++ nonterminals := by
  unfold symbolNamed?
  cases ht : terminals.findIdx? (·.name = name) with
  | some i =>
      obtain ⟨hi, hname, -⟩ := List.findIdx?_eq_some_iff_getElem.mp ht
      have hmem : name ∈ terminals.map (·.name) :=
        List.mem_map.mpr ⟨terminals[i], List.getElem_mem hi, of_decide_eq_true hname⟩
      simp [hmem]
  | none =>
      rw [List.findIdx?_eq_none_iff] at ht
      simp only [Option.map_eq_none_iff, List.findIdx?_eq_none_iff, List.mem_append, List.mem_map]
      grind

namespace IsSymbolTable

variable {terminals : List Terminal} {nonterminals : List Text}

theorem symbolNamed?_eq_terminal (h : IsSymbolTable terminals nonterminals) {name : Text}
    {i : Nat} : symbolNamed? terminals nonterminals name = some (.terminal i) ↔
      ∃ t, terminals[i]? = some t ∧ t.name = name := by
  have hnodup : (terminals.map (·.name)).Nodup := h.names_nodup.of_append_left
  rw [← findIdx?_eq_some_iff_of_nodup hnodup]
  unfold symbolNamed?
  cases terminals.findIdx? (·.name = name) with
  | some j => simp
  | none => simp

theorem symbolNamed?_eq_nonterminal (h : IsSymbolTable terminals nonterminals) {name : Text}
    {i : Nat} : symbolNamed? terminals nonterminals name = some (.nonterminal i) ↔
      nonterminals[i]? = some name := by
  have hnodup : (nonterminals.map id).Nodup := by simpa using h.names_nodup.of_append_right
  have hfind : nonterminals.findIdx? (· = name) = some i ↔ nonterminals[i]? = some name := by
    simpa using findIdx?_eq_some_iff_of_nodup hnodup (x := name) (i := i)
  unfold symbolNamed?
  cases ht : terminals.findIdx? (·.name = name) with
  | some j =>
      -- the name is that of a terminal and of no non-terminal
      obtain ⟨t, hj, rfl⟩ :=
        (findIdx?_eq_some_iff_of_nodup h.names_nodup.of_append_left).mp ht
      have hdisjoint := List.disjoint_of_nodup_append h.names_nodup
      simp only [Option.some.injEq, reduceCtorEq, false_iff]
      intro hi
      exact hdisjoint (List.mem_map_of_mem (List.mem_of_getElem? hj)) (List.mem_of_getElem? hi)
  | none => simpa using hfind

theorem find?_type (h : IsSymbolTable terminals nonterminals) {type : TokenType} {t : Terminal} :
    terminals.find? (·.type = type) = some t ↔ t ∈ terminals ∧ t.type = type := by
  constructor
  · intro hfind
    exact ⟨List.mem_of_find?_eq_some hfind, by simpa using List.find?_some hfind⟩
  · rintro ⟨hmem, rfl⟩
    cases hfind : terminals.find? (·.type = t.type) with
    | none => simpa using List.find?_eq_none.mp hfind t hmem
    | some t' =>
        have htype : t'.type = t.type := by simpa using List.find?_some hfind
        rw [List.inj_on_of_nodup_map h.types_nodup (List.mem_of_find?_eq_some hfind) hmem htype]

-- The table with another terminal.
theorem append_terminal (h : IsSymbolTable terminals nonterminals) {t : Terminal}
    (hname : t.name ≠ [] ∧ t.name ≠ epsilonName ∧ t.name ≠ endOfInputName)
    (hnew : t.name ∉ terminals.map (·.name) ++ nonterminals)
    (htype : t.type ≠ TokenType.endOfInput) (hunbound : ∀ t' ∈ terminals, t'.type ≠ t.type) :
    IsSymbolTable (terminals ++ [t]) nonterminals where
  names_nodup := by
    rw [List.map_append, List.append_assoc, List.map_singleton, List.singleton_append,
      List.nodup_middle]
    exact List.nodup_cons.mpr ⟨hnew, h.names_nodup⟩
  names_ne := by
    intro name hmem
    rw [List.map_append, List.append_assoc, List.map_singleton, List.singleton_append,
      List.mem_append, List.mem_cons] at hmem
    rcases hmem with hmem | rfl | hmem
    · exact h.names_ne name (List.mem_append_left _ hmem)
    · exact hname
    · exact h.names_ne name (List.mem_append_right _ hmem)
  types_nodup := by
    rw [List.map_append, List.map_singleton, List.nodup_append_comm]
    refine List.nodup_cons.mpr ⟨?_, h.types_nodup⟩
    rintro hmem
    obtain ⟨t', ht', he⟩ := List.mem_map.mp hmem
    exact hunbound t' ht' he
  types_ne := by
    intro t' hmem
    rcases List.mem_append.mp hmem with hmem | hmem
    · exact h.types_ne t' hmem
    · rwa [List.mem_singleton.mp hmem]

-- The table with another non-terminal.
theorem append_nonterminal (h : IsSymbolTable terminals nonterminals) {name : Text}
    (hname : name ≠ [] ∧ name ≠ epsilonName ∧ name ≠ endOfInputName)
    (hnew : name ∉ terminals.map (·.name) ++ nonterminals) :
    IsSymbolTable terminals (nonterminals ++ [name]) where
  names_nodup := by
    rw [← List.append_assoc, List.nodup_append_comm]
    exact List.nodup_cons.mpr ⟨hnew, h.names_nodup⟩
  names_ne := by
    intro name' hmem
    rw [← List.append_assoc, List.mem_append] at hmem
    rcases hmem with hmem | hmem
    · exact h.names_ne name' hmem
    · rwa [List.mem_singleton.mp hmem]
  types_nodup := h.types_nodup
  types_ne := h.types_ne

end IsSymbolTable

theorem Symbol.IsAmong.mono {terminals terminals' : List Terminal}
    {nonterminals nonterminals' : List Text} {s : Symbol}
    (h : s.IsAmong terminals nonterminals) (ht : terminals.length ≤ terminals'.length)
    (hn : nonterminals.length ≤ nonterminals'.length) : s.IsAmong terminals' nonterminals' := by
  cases s with
  | terminal i => exact Nat.lt_of_lt_of_le h ht
  | nonterminal i => exact Nat.lt_of_lt_of_le h hn
  | endOfInput => exact h

-- What a grammar says about its symbols, and its rules about theirs.
structure Grammar.HasSymbols (g : Grammar) : Prop where
  table : IsSymbolTable g.terminals g.nonterminals
  start_lt : g.start < g.nonterminals.length
  lhs_lt : ∀ r ∈ g.rules, r.lhs < g.nonterminals.length
  rhs_declared : ∀ r ∈ g.rules, ∀ x ∈ r.rhs, g.Declares x
  declared_subset : g.declared ⊆ g.rules

-- Look-ups by name and by token type find what is registered, in its place, and nothing else.
structure Grammar.FindsSymbols (g : Grammar) : Prop where
  terminal_iff : ∀ name i, g.symbol? name = some (.terminal i) ↔
    ∃ t, g.terminals[i]? = some t ∧ t.name = name
  nonterminal_iff : ∀ name i, g.symbol? name = some (.nonterminal i) ↔
    g.nonterminals[i]? = some name
  type_iff : ∀ type i, g.terminal? type = some (.terminal i) ↔
    ∃ t, g.terminals[i]? = some t ∧ t.type = type

theorem IsSymbolTable.findsSymbols {g : Grammar} (h : IsSymbolTable g.terminals g.nonterminals) :
    g.FindsSymbols := by
  have hreserved : endOfInputName ∉ g.terminals.map (·.name) ++ g.nonterminals :=
    fun hmem => (h.names_ne _ hmem).2.2 rfl
  refine ⟨fun name i => ?_, fun name i => ?_, fun type i => ?_⟩
  · rw [Grammar.symbol?]
    split
    · subst name
      constructor
      · intro he
        cases he
      · rintro ⟨t, ht, hname⟩
        have hmem := List.mem_map.mpr ⟨t, List.mem_of_getElem? ht, hname⟩
        exact absurd (List.mem_append_left _ hmem) hreserved
    · exact h.symbolNamed?_eq_terminal
  · rw [Grammar.symbol?]
    split
    · subst name
      constructor
      · intro he
        cases he
      · intro hn
        exact absurd (List.mem_append_right _ (List.mem_of_getElem? hn)) hreserved
    · exact h.symbolNamed?_eq_nonterminal
  · rw [Grammar.terminal?]
    split
    · subst type
      constructor
      · intro he
        cases he
      · rintro ⟨t, ht, htype⟩
        exact absurd htype (h.types_ne t (List.mem_of_getElem? ht))
    · rw [← findIdx?_eq_some_iff_of_nodup h.types_nodup]
      cases g.terminals.findIdx? (·.type = type) <;> simp

-- The token type of a terminal leads back to it.
theorem Grammar.FindsSymbols.terminal?_typeOf {g : Grammar} (h : g.FindsSymbols) {i : Nat}
    (hi : i < g.terminals.length) : g.terminal? (g.typeOf (.terminal i)) = some (.terminal i) := by
  have hget : g.terminals[i]? = some g.terminals[i] := List.getElem?_eq_getElem hi
  exact (h.type_iff _ i).mpr ⟨_, hget, by simp [typeOf, hget]⟩

namespace Builder

variable {b b' : Builder} {g : Grammar}

-- What a grammar and the builder it comes from have in common.
structure Shares (b : Builder) (g : Grammar) : Prop where
  name_eq : b.name = g.name
  terminals_eq : b.terminals = g.terminals
  nonterminals_eq : b.nonterminals = g.nonterminals
  resolved_eq : b.resolved = g.rules

-- What is true of a builder at any time.
structure IsSound (b : Builder) : Prop where
  table : IsSymbolTable b.terminals b.nonterminals
  lhs_lt : ∀ r ∈ b.resolved, r.lhs < b.nonterminals.length
  rhs_registered : ∀ r ∈ b.resolved, ∀ x ∈ r.rhs, b.Registers x
  shares : ∀ g, b.built = some g → b.Shares g
  hasSymbols : ∀ g, b.built = some g → g.HasSymbols

theorem nameFault?_eq_none {name : Text} (h : b.nameFault? name = none) :
    (name ≠ [] ∧ name ≠ epsilonName ∧ name ≠ endOfInputName) ∧
      name ∉ b.terminals.map (·.name) ++ b.nonterminals := by
  unfold nameFault? at h
  split at h
  · cases h
  · split at h
    · cases h
    · rename_i hallowed hnew
      rw [Option.not_isSome_iff_eq_none] at hnew
      exact ⟨by simpa [not_or, and_assoc] using hallowed, symbolNamed?_eq_none_iff.mp hnew⟩

theorem typeFault?_eq_none {name : Text} {type : TokenType} (h : b.typeFault? name type = none) :
    type ≠ TokenType.endOfInput ∧ ∀ t ∈ b.terminals, t.type ≠ type := by
  unfold typeFault? at h
  split at h
  · cases h
  · exact ⟨‹_›, by simpa using h⟩

-- A registration that is refused leaves the symbols as they are.
theorem terminal_refused {name : Text} {type : TokenType} (h : (b.terminal name type).2 ≠ none) :
    (b.terminal name type).1.terminals = b.terminals ∧
      (b.terminal name type).1.nonterminals = b.nonterminals := by
  rcases b.terminal_cases name type with ⟨failure, e, he⟩ | ⟨-, -, -, he⟩
  · rw [he]
    exact ⟨rfl, rfl⟩
  · rw [he] at h
    exact absurd rfl h

theorem nonterminal_refused {name : Text} (h : (b.nonterminal name).2 ≠ none) :
    (b.nonterminal name).1.terminals = b.terminals ∧
      (b.nonterminal name).1.nonterminals = b.nonterminals := by
  rcases b.nonterminal_cases name with ⟨failure, e, he⟩ | ⟨-, -, he⟩
  · rw [he]
    exact ⟨rfl, rfl⟩
  · rw [he] at h
    exact absurd rfl h

theorem IsSound.of_eq (hb : b.IsSound) (hname : b'.name = b.name)
    (hterminals : b'.terminals = b.terminals) (hnonterminals : b'.nonterminals = b.nonterminals)
    (hresolved : b'.resolved = b.resolved) (hbuilt : b'.built = b.built) : b'.IsSound where
  table := by rw [hterminals, hnonterminals]; exact hb.table
  lhs_lt := by rw [hresolved, hnonterminals]; exact hb.lhs_lt
  rhs_registered := by
    unfold Registers
    rw [hresolved, hterminals, hnonterminals]
    exact hb.rhs_registered
  shares := by
    rw [hbuilt]
    intro g hg
    obtain ⟨h₁, h₂, h₃, h₄⟩ := hb.shares g hg
    exact ⟨hname.trans h₁, hterminals.trans h₂, hnonterminals.trans h₃, hresolved.trans h₄⟩
  hasSymbols := by rw [hbuilt]; exact hb.hasSymbols

-- With more symbols the rules are as good as before.
theorem IsSound.of_le (hb : b.IsSound) (hn : b'.built = none)
    (htable : IsSymbolTable b'.terminals b'.nonterminals)
    (hterminals : b.terminals.length ≤ b'.terminals.length)
    (hnonterminals : b.nonterminals.length ≤ b'.nonterminals.length)
    (hresolved : b'.resolved = b.resolved) : b'.IsSound where
  table := htable
  lhs_lt := by
    rw [hresolved]
    exact fun r hr => Nat.lt_of_lt_of_le (hb.lhs_lt r hr) hnonterminals
  rhs_registered := by
    rw [hresolved]
    exact fun r hr x hx => (hb.rhs_registered r hr x hx).mono hterminals hnonterminals
  shares := by simp [hn]
  hasSymbols := by simp [hn]

theorem attempt_registered {r : Rule} (h : r ∈ b.attempt) :
    r.lhs < b.nonterminals.length ∧ ∀ x ∈ r.rhs, b.Registers x := by
  unfold attempt at h
  split at h
  · obtain ⟨i, hi⟩ := List.mem_iff_getElem?.mp h
    exact (resolveFrom_getElem? hi).2
  · cases h

theorem IsSound.build (hb : b.IsSound) : b.build.1.IsSound := by
  have hlhs : ∀ r ∈ b.resolved ++ b.attempt, r.lhs < b.nonterminals.length := by
    intro r hr
    rcases List.mem_append.mp hr with hr | hr
    · exact hb.lhs_lt r hr
    · exact (attempt_registered hr).1
  have hrhs : ∀ r ∈ b.resolved ++ b.attempt, ∀ x ∈ r.rhs, b.Registers x := by
    intro r hr
    rcases List.mem_append.mp hr with hr | hr
    · exact hb.rhs_registered r hr
    · exact (attempt_registered hr).2
  rcases b.build_cases with ⟨g, -, he⟩ | ⟨hn, -, e, he⟩ | ⟨-, -, start, hs, -, he⟩
  · rw [he]
    exact hb
  · rw [he]
    exact ⟨hb.table, hlhs, hrhs, by simp [hn], by simp [hn]⟩
  · rw [he]
    refine ⟨hb.table, hlhs, hrhs, ?_, ?_⟩
    · rintro g hg
      obtain rfl := Option.some.inj hg
      exact ⟨rfl, rfl, rfl, rfl⟩
    · rintro g hg
      obtain rfl := Option.some.inj hg
      exact ⟨hb.table, resolveStart_lt hs, hlhs, hrhs, List.subset_append_right _ _⟩

theorem built_of_build (hg : b.build.2 = .ok g) :
    b.build.1.built = some g ∧ b.build.1.terminals = b.terminals ∧
      b.build.1.nonterminals = b.nonterminals := by
  rcases b.build_cases with ⟨g', hb, he⟩ | ⟨-, -, e, he⟩ | ⟨-, -, start, -, -, he⟩
  · rw [he] at hg ⊢
    obtain rfl := Except.ok.inj hg
    exact ⟨hb, rfl, rfl⟩
  · rw [he] at hg
    cases hg
  · rw [he] at hg ⊢
    obtain rfl := Except.ok.inj hg
    exact ⟨rfl, rfl, rfl⟩

theorem IsSound.perform (hb : b.IsSound) (op : Operation) : (b.perform op).IsSound := by
  by_cases hop : op = .build
  · subst hop
    exact hb.build
  · have hchanges := b.changes_perform hop
    generalize b.perform op = b' at hchanges ⊢
    cases hchanges with
    | terminal hn hname htype =>
        obtain ⟨hallowed, hnew⟩ := nameFault?_eq_none hname
        obtain ⟨hreal, hunbound⟩ := typeFault?_eq_none htype
        exact hb.of_le hn (hb.table.append_terminal hallowed hnew hreal hunbound) (by simp)
          (Nat.le_refl _) rfl
    | nonterminal hn hname =>
        obtain ⟨hallowed, hnew⟩ := nameFault?_eq_none hname
        exact hb.of_le hn (hb.table.append_nonterminal hallowed hnew) (Nat.le_refl _) (by simp) rfl
    | _ => exact hb.of_eq rfl rfl rfl rfl rfl

theorem IsSound.foldl (hb : b.IsSound) (history : List Operation) :
    (history.foldl Builder.perform b).IsSound := by
  induction history generalizing b with
  | nil => exact hb
  | cons op rest ih => exact ih (hb.perform op)

theorem isSound_after (name : Text) (history : List Operation) : (after name history).IsSound := by
  have hnew : (new name).IsSound := by
    refine ⟨⟨?_, ?_, ?_, ?_⟩, ?_, ?_, ?_, ?_⟩ <;> simp [new]
  exact hnew.foldl history

-- All that is left to do for a builder is to hand out its grammar.
structure IsSettled (b : Builder) (g : Grammar) : Prop where
  build_eq : b.build = (b, .ok g)
  terminal_eq : ∀ name type, b.terminal name type = (b, some ⟨g.name, .alreadyBuilt name⟩)
  nonterminal_eq : ∀ name, b.nonterminal name = (b, some ⟨g.name, .alreadyBuilt name⟩)
  close_eq : ∀ h, b.close h = (b, none)
  closeEmpty_eq : ∀ h answer, b.closeEmpty h = .ok answer → answer = (b, none)

theorem IsSound.isSettled (hb : b.IsSound) (hg : b.built = some g) : b.IsSettled g := by
  have hclose : ∀ h, b.close h = (b, none) := by
    intro h
    simp [close, hg]
  have hname := (hb.shares g hg).name_eq
  exact {
    build_eq := build_of_built hg
    terminal_eq := by simp [terminal, hg, error, hname]
    nonterminal_eq := by simp [nonterminal, hg, error, hname]
    close_eq := hclose
    closeEmpty_eq := fun h answer he => (closeEmpty_eq_ok he).trans (hclose h) }

-- As long as a builder is in use, its names and token types find what is registered.
structure FindsSymbols (b : Builder) : Prop where
  terminal_iff : ∀ name i, b.symbol? name = some (.terminal i) ↔
    ∃ t, b.terminals[i]? = some t ∧ t.name = name
  nonterminal_iff : ∀ name i, b.symbol? name = some (.nonterminal i) ↔
    b.nonterminals[i]? = some name
  type_iff : ∀ type t, b.terminals.find? (·.type = type) = some t ↔ t ∈ b.terminals ∧ t.type = type

-- At any time the table of symbols is sound, whatever has been refused before. A grammar is made of
-- its symbols, and once it is there, nothing that is done to its builder can change it.
theorem symbolTable_after (name : Text) (history : List Operation) {b : Builder}
    (hb : after name history = b) :
    IsSymbolTable b.terminals b.nonterminals ∧ b.FindsSymbols ∧
      (∀ n type, (b.terminal n type).2 ≠ none →
        (b.terminal n type).1.terminals = b.terminals ∧
          (b.terminal n type).1.nonterminals = b.nonterminals) ∧
      (∀ n, (b.nonterminal n).2 ≠ none →
        (b.nonterminal n).1.terminals = b.terminals ∧
          (b.nonterminal n).1.nonterminals = b.nonterminals) ∧
      ∀ g, b.build.2 = .ok g →
        g.terminals = b.terminals ∧ g.nonterminals = b.nonterminals ∧ g.HasSymbols ∧
          g.FindsSymbols ∧
          (∀ i < g.terminals.length, g.terminal? (g.typeOf (.terminal i)) = some (.terminal i)) ∧
          ∀ later : List Operation, (later.foldl perform b.build.1).Shares g ∧
            (later.foldl perform b.build.1).IsSettled g := by
  have hsound : b.IsSound := hb ▸ isSound_after name history
  refine ⟨hsound.table, ⟨fun _ _ => hsound.table.symbolNamed?_eq_terminal,
    fun _ _ => hsound.table.symbolNamed?_eq_nonterminal, fun _ _ => hsound.table.find?_type⟩,
    fun _ _ => terminal_refused, fun _ => nonterminal_refused, fun g hg => ?_⟩
  obtain ⟨hbuilt, hterminals, hnonterminals⟩ := built_of_build hg
  have hbuild := hsound.build
  have hshares := hbuild.shares g hbuilt
  have hsymbols := hbuild.hasSymbols g hbuilt
  refine ⟨hshares.terminals_eq.symm.trans hterminals,
    hshares.nonterminals_eq.symm.trans hnonterminals, hsymbols, hsymbols.table.findsSymbols,
    fun i hi => hsymbols.table.findsSymbols.terminal?_typeOf hi, fun later => ?_⟩
  have hlater := hbuild.foldl later
  have hstill := built_foldl hbuilt later
  exact ⟨hlater.shares g hstill, hlater.isSettled hstill⟩

-- Here an attempt has failed before, and terminals are refused before and after the next one.
theorem symbolTable_retried :
    ((after (text "G") retried).terminal (text "S") 0x63).1.terminals =
        (after (text "G") retried).terminals ∧
      retriedGrammar.terminal? 0x62 = some (.terminal 1) ∧
      (after (text "G") (retried ++ [.build, .terminal (text "c") 0x63])).build.2 =
        .ok retriedGrammar := by
  obtain ⟨-, -, hterminal, -, hbuilt⟩ := symbolTable_after (text "G") retried rfl
  obtain ⟨-, -, -, -, htypes, hlater⟩ := hbuilt _ build_retried
  refine ⟨(hterminal (text "S") 0x63 (by decide +kernel)).1, htypes 1 (by decide), ?_⟩
  have hsettled := (hlater [.terminal (text "c") 0x63]).2.build_eq
  have hafter : after (text "G") (retried ++ [.build, .terminal (text "c") 0x63]) =
      [.terminal (text "c") 0x63].foldl perform (after (text "G") retried).build.1 := by
    simp [after, perform]
  rw [hafter, hsettled]

end Builder

namespace Grammar

variable {g : Grammar}

theorem HasSymbols.wellScoped (h : g.HasSymbols) : g.WellScoped :=
  ⟨h.start_lt, h.lhs_lt, h.rhs_declared⟩

theorem IsBuild.hasSymbols (h : g.IsBuild) : g.HasSymbols := by
  obtain ⟨name, history, hg⟩ := h
  exact (Builder.isSound_after name history).build.hasSymbols g (Builder.built_of_build hg).1

theorem IsFirstBuild.hasSymbols (h : g.IsFirstBuild) : g.HasSymbols := h.isBuild.hasSymbols

end Grammar

end Lookahead
