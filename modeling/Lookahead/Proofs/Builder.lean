import Lookahead.Expression.Grammar
import Mathlib.Data.List.Basic

/-!
Histories of builders, and what is true of a grammar that comes out of the first attempt to
build one: its symbols are declared, and every rule is found at its number.
-/

namespace Lookahead

theorem eq_ok_of_toOption {ε α : Type} {result : Except ε α} {a : α}
    (h : result.toOption = some a) : result = .ok a := by
  cases result with
  | error e => cases h
  | ok a' => exact congrArg Except.ok (Option.some.inj h)

theorem exists_ok_of_any {ε α : Type} {x : Except ε α} {p : α → Bool}
    (h : x.toOption.any p = true) : ∃ a, x = .ok a ∧ p a = true := by
  cases x with
  | error e => cases h
  | ok a => exact ⟨a, rfl, h⟩

theorem bind_eq_ok {ε α β : Type} {x : Except ε α} {f : α → Except ε β} {b : β}
    (h : x >>= f = .ok b) : ∃ a, x = .ok a ∧ f a = .ok b := by
  cases x with
  | error e => cases h
  | ok a => exact ⟨a, rfl, h⟩

namespace Builder

-- All that can be done with a builder and its handles.
inductive Operation where
  | terminal (name : Text) (type : TokenType)
  | nonterminal (name : Text)
  | setStart (name : Text)
  | beginRule (lhs : Text)
  | append (h : Handle) (ref : Reference)
  | close (h : Handle)
  | closeEmpty (h : Handle)
  | build
deriving DecidableEq, Repr

-- The builder after an operation, whatever the operation has answered.
def perform (b : Builder) : Operation → Builder
  | .terminal name type => (b.terminal name type).1
  | .nonterminal name => (b.nonterminal name).1
  | .setStart name => b.setStart name
  | .beginRule lhs => (b.beginRule lhs).1
  | .append h ref => b.append h ref
  | .close h => (b.close h).1
  | .closeEmpty h =>
    match b.closeEmpty h with
    | .ok (b, _) => b
    | .error _ => b
  | .build => b.build.1

-- A new builder after a history of operations.
def after (name : Text) (history : List Operation) : Builder :=
  history.foldl perform (new name)

end Builder

-- Whether a grammar is what the first attempt to build has returned, after any history.
def Grammar.IsFirstBuild (g : Grammar) : Prop :=
  ∃ name history, Builder.Operation.build ∉ history ∧
    (Builder.after name history).build.2 = .ok g

-- Whether a grammar is what any attempt to build has returned, the first one or a later one.
def Grammar.IsBuild (g : Grammar) : Prop :=
  ∃ name history, (Builder.after name history).build.2 = .ok g

theorem Grammar.IsFirstBuild.isBuild {g : Grammar} (h : g.IsFirstBuild) : g.IsBuild := by
  obtain ⟨name, history, -, hg⟩ := h
  exact ⟨name, history, hg⟩

-- Whether a symbol is one of the given terminals and non-terminals.
def Symbol.IsAmong (terminals : List Terminal) (nonterminals : List Text) : Symbol → Prop
  | .terminal i => i < terminals.length
  | .nonterminal i => i < nonterminals.length
  | .endOfInput => False

namespace Grammar

-- Symbols that rules may be made of.
def Declares (g : Grammar) (s : Symbol) : Prop := s.IsAmong g.terminals g.nonterminals

-- What an analysis relies on: rules and start symbol are made of declared symbols.
structure WellScoped (g : Grammar) : Prop where
  start_lt : g.start < g.nonterminals.length
  lhs_lt : ∀ r ∈ g.rules, r.lhs < g.nonterminals.length
  rhs_declared : ∀ r ∈ g.rules, ∀ x ∈ r.rhs, g.Declares x

-- What tables and parsers rely on: every rule is also found at its number.
structure WellFormed (g : Grammar) : Prop extends WellScoped g where
  serial_eq : ∀ (i : Nat) (r : Rule), g.rules[i]? = some r → r.serial = i

end Grammar

namespace Builder

-- Nothing is left over from earlier attempts to build.
def IsFresh (b : Builder) : Prop := b.resolved = [] ∧ b.built = none

-- An empty rule is closed like any other.
theorem closeEmpty_eq_ok {b : Builder} {h : Handle} {answer : Builder × Option Nat}
    (hc : b.closeEmpty h = .ok answer) : answer = b.close h := by
  unfold closeEmpty at hc
  split at hc
  · split at hc
    · exact (Except.ok.inj hc).symm
    · cases hc
  · exact (Except.ok.inj hc).symm

-- A terminal is refused, or it is registered under a free name and a free token type.
theorem terminal_cases (b : Builder) (name : Text) (type : TokenType) :
    (∃ failure e, b.terminal name type = ({ b with failure := failure }, some e)) ∨
      (b.built = none ∧ b.nameFault? name = none ∧ b.typeFault? name type = none ∧
        b.terminal name type = ({ b with terminals := b.terminals ++ [⟨name, type⟩] }, none)) := by
  unfold terminal
  split
  · exact .inl ⟨b.failure, _, rfl⟩
  · rename_i hbuilt
    split
    · exact .inl ⟨_, _, rfl⟩
    · rename_i hfault
      have hnone : b.nameFault? name = none ∧ b.typeFault? name type = none := by
        simpa using hfault
      exact .inr ⟨by simpa using hbuilt, hnone.1, hnone.2, rfl⟩

theorem nonterminal_cases (b : Builder) (name : Text) :
    (∃ failure e, b.nonterminal name = ({ b with failure := failure }, some e)) ∨
      (b.built = none ∧ b.nameFault? name = none ∧
        b.nonterminal name = ({ b with nonterminals := b.nonterminals ++ [name] }, none)) := by
  unfold nonterminal
  split
  · exact .inl ⟨b.failure, _, rfl⟩
  · rename_i hbuilt
    split
    · exact .inl ⟨_, _, rfl⟩
    · rename_i hfault
      exact .inr ⟨by simpa using hbuilt, hfault, rfl⟩

-- All that an operation may do to a builder, attempts to build apart.
inductive Changes (b : Builder) : Builder → Prop
  | keep (failure : Option GrammarError) : Changes b { b with failure := failure }
  | terminal {name : Text} {type : TokenType} (hn : b.built = none)
      (hname : b.nameFault? name = none) (htype : b.typeFault? name type = none) :
      Changes b { b with terminals := b.terminals ++ [⟨name, type⟩] }
  | nonterminal {name : Text} (hn : b.built = none) (hname : b.nameFault? name = none) :
      Changes b { b with nonterminals := b.nonterminals ++ [name] }
  | setStart (name : Text) : Changes b { b with start := name }
  | beginRule (lhs : Text) : Changes b { b with declarations := b.declarations ++ [⟨lhs, []⟩] }
  | append (h : Handle) (ref : Reference) : Changes b (b.append h ref)
  | close (hn : b.built = none) (h : Handle) :
      Changes b { b with closed := b.closed ++ [h.index] }

theorem changes_close (b : Builder) (h : Handle) : b.Changes (b.close h).1 := by
  unfold close
  split
  · exact .keep b.failure
  · rename_i hbuilt
    exact .close (by simpa using hbuilt) h

theorem changes_perform (b : Builder) {op : Operation} (hop : op ≠ .build) :
    b.Changes (b.perform op) := by
  cases op with
  | terminal name type =>
      rw [perform]
      rcases b.terminal_cases name type with ⟨failure, e, he⟩ | ⟨hn, hname, htype, he⟩
      · rw [he]
        exact .keep failure
      · rw [he]
        exact .terminal hn hname htype
  | nonterminal name =>
      rw [perform]
      rcases b.nonterminal_cases name with ⟨failure, e, he⟩ | ⟨hn, hname, he⟩
      · rw [he]
        exact .keep failure
      · rw [he]
        exact .nonterminal hn hname
  | setStart name => exact .setStart name
  | beginRule lhs => exact .beginRule lhs
  | append h ref => exact .append h ref
  | close h => exact b.changes_close h
  | closeEmpty h =>
      simp only [perform]
      split
      · rename_i he
        have hc := b.changes_close h
        rw [← closeEmpty_eq_ok he] at hc
        exact hc
      · exact .keep b.failure
  | build => exact absurd rfl hop

-- Only attempts to build have a grammar or rules to show for it.
theorem perform_frame (b : Builder) {op : Operation} (hop : op ≠ .build) :
    (b.perform op).built = b.built ∧ (b.perform op).resolved = b.resolved := by
  have hchanges := b.changes_perform hop
  generalize b.perform op = b' at hchanges ⊢
  cases hchanges <;> exact ⟨rfl, rfl⟩

theorem isFresh_perform {b : Builder} (hb : b.IsFresh) {op : Operation} (hop : op ≠ .build) :
    (b.perform op).IsFresh := by
  obtain ⟨hbuilt, hresolved⟩ := b.perform_frame hop
  exact ⟨hresolved.trans hb.1, hbuilt.trans hb.2⟩

theorem isFresh_after (name : Text) (history : List Operation) (h : .build ∉ history) :
    (after name history).IsFresh := by
  have hall : ∀ b : Builder, b.IsFresh → (history.foldl perform b).IsFresh := by
    induction history with
    | nil => exact fun b hb => hb
    | cons op rest ih =>
        intro b hb
        have hop : op ≠ .build := fun he => h (he ▸ List.mem_cons_self)
        exact ih (fun hm => h (List.mem_cons_of_mem _ hm)) _ (isFresh_perform hb hop)
  exact hall _ ⟨rfl, rfl⟩

theorem terminal_lt_of_symbol? {b : Builder} {name : Text} {i : Nat}
    (h : b.symbol? name = some (.terminal i)) : i < b.terminals.length := by
  unfold symbol? symbolNamed? at h
  split at h
  · rename_i j hj
    cases h
    exact (List.findIdx?_eq_some_iff_findIdx_eq.mp hj).1
  · simp at h

theorem nonterminal_lt_of_symbol? {b : Builder} {name : Text} {i : Nat}
    (h : b.symbol? name = some (.nonterminal i)) : i < b.nonterminals.length := by
  unfold symbol? symbolNamed? at h
  split at h
  · cases h
  · obtain ⟨j, hj, he⟩ := Option.map_eq_some_iff.mp h
    cases he
    exact (List.findIdx?_eq_some_iff_findIdx_eq.mp hj).1

theorem symbol?_ne_endOfInput (b : Builder) (name : Text) :
    b.symbol? name ≠ some .endOfInput := by
  intro h
  unfold symbol? symbolNamed? at h
  split at h
  · cases h
  · simp at h

-- Whether a symbol is registered with a builder.
def Registers (b : Builder) (s : Symbol) : Prop := s.IsAmong b.terminals b.nonterminals

theorem registers_of_symbol? {b : Builder} {name : Text} {s : Symbol}
    (h : b.symbol? name = some s) : b.Registers s := by
  cases s with
  | terminal i => exact terminal_lt_of_symbol? h
  | nonterminal i => exact nonterminal_lt_of_symbol? h
  | endOfInput => exact symbol?_ne_endOfInput b name h

theorem registers_of_resolveReference {b : Builder} {serial : Nat} {ref : Reference} {s : Symbol}
    (h : b.resolveReference serial ref = .ok s) : b.Registers s := by
  unfold resolveReference at h
  split at h
  · rename_i x hx
    split at h
    · cases h
      exact registers_of_symbol? hx
    · cases h
  · cases h

theorem registers_of_mapM {b : Builder} {serial : Nat} {refs : List Reference}
    {symbols : List Symbol} (h : refs.mapM (b.resolveReference serial) = .ok symbols) :
    ∀ x ∈ symbols, b.Registers x := by
  induction refs generalizing symbols with
  | nil =>
      cases h
      simp
  | cons ref rest ih =>
      rw [List.mapM_cons] at h
      cases hx : b.resolveReference serial ref with
      | error fault => rw [hx] at h; cases h
      | ok s =>
          rw [hx] at h
          cases hr : rest.mapM (b.resolveReference serial) with
          | error fault => rw [hr] at h; cases h
          | ok tail =>
              rw [hr] at h
              cases h
              intro x hm
              rcases List.mem_cons.mp hm with rfl | hm
              · exact registers_of_resolveReference hx
              · exact ih hr x hm

-- A resolved declaration is a rule over registered symbols.
theorem resolve_eq_ok {b : Builder} {serial : Nat} {d : Declaration} {r : Rule}
    (h : b.resolve serial d = .ok r) :
    r.serial = serial ∧ r.lhs < b.nonterminals.length ∧ ∀ x ∈ r.rhs, b.Registers x := by
  unfold resolve at h
  split at h
  · rename_i lhs hl
    cases hm : d.rhs.mapM (b.resolveReference serial) with
    | error fault => rw [hm] at h; cases h
    | ok rhs =>
        rw [hm] at h
        cases h
        exact ⟨rfl, nonterminal_lt_of_symbol? hl, registers_of_mapM hm⟩
  · cases h

-- Resolved declarations are numbered in order.
theorem resolveFrom_getElem? {b : Builder} {serial i : Nat} {ds : List Declaration} {r : Rule}
    (h : (b.resolveFrom serial ds).1[i]? = some r) :
    r.serial = serial + i ∧ r.lhs < b.nonterminals.length ∧ ∀ x ∈ r.rhs, b.Registers x := by
  induction ds generalizing serial i with
  | nil => simp [resolveFrom] at h
  | cons d rest ih =>
      unfold resolveFrom at h
      split at h
      · simp at h
      · rename_i r₀ hr
        cases i with
        | zero =>
            simp only [List.getElem?_cons_zero, Option.some.injEq] at h
            subst h
            exact resolve_eq_ok hr
        | succ i =>
            simp only [List.getElem?_cons_succ] at h
            obtain ⟨hs, hrest⟩ := ih h
            exact ⟨by omega, hrest⟩

theorem resolveStart_lt {b : Builder} {start : Nat} (h : b.resolveStart = .ok start) :
    start < b.nonterminals.length := by
  unfold resolveStart at h
  split at h
  · cases h
  · split at h
    · rename_i hs
      cases h
      exact nonterminal_lt_of_symbol? hs
    · cases h

-- The rules that an attempt resolves, up to the first declaration with a fault.
def attempt (b : Builder) : List Rule :=
  match b.built, b.failure, b.resolveStart with
  | none, none, .ok _ => (b.resolveFrom 0 b.closedDeclarations).1
  | _, _, _ => []

-- The grammar that a successful attempt puts together.
def assemble (b : Builder) (start : Nat) : Grammar :=
  { name := b.name, terminals := b.terminals, nonterminals := b.nonterminals,
    rules := b.resolved ++ b.attempt, declared := b.attempt, start := start }

theorem resolveFrom_eq_none {b : Builder} {serial : Nat} {ds : List Declaration} {rules : List Rule}
    (h : b.resolveFrom serial ds = (rules, none)) :
    rules.length = ds.length ∧ ∀ (i : Nat) (d : Declaration), ds[i]? = some d →
      ∃ r, rules[i]? = some r ∧ b.resolve (serial + i) d = .ok r := by
  induction ds generalizing serial rules with
  | nil =>
      cases h
      simp
  | cons d rest ih =>
      rw [resolveFrom] at h
      cases hd : b.resolve serial d with
      | error fault => simp [hd] at h
      | ok r =>
          simp only [hd, Prod.mk.injEq] at h
          obtain ⟨rfl, hfault⟩ := h
          obtain ⟨hlen, hrest⟩ := ih (Prod.ext rfl hfault)
          refine ⟨by simp [hlen], fun i d' hi => ?_⟩
          cases i with
          | zero =>
              obtain rfl := Option.some.inj hi
              exact ⟨r, rfl, hd⟩
          | succ i =>
              obtain ⟨r', hr', hd'⟩ := hrest i d' hi
              exact ⟨r', hr', by rw [← hd', Nat.add_right_comm, Nat.add_assoc]⟩

theorem length_lt_of_resolveFrom {b : Builder} {serial : Nat} {ds : List Declaration}
    {rules : List Rule} {fault : GrammarFault} (h : b.resolveFrom serial ds = (rules, some fault)) :
    rules.length < ds.length := by
  induction ds generalizing serial rules with
  | nil => cases h
  | cons d rest ih =>
      rw [resolveFrom] at h
      cases hd : b.resolve serial d with
      | error fault =>
          simp only [hd, Prod.mk.injEq] at h
          obtain ⟨rfl, -⟩ := h
          simp
      | ok r =>
          simp only [hd, Prod.mk.injEq] at h
          obtain ⟨rfl, hfault⟩ := h
          exact Nat.succ_lt_succ (ih (Prod.ext rfl hfault))

-- What an attempt may come to: the grammar that is there already, an error, or a new grammar.
theorem build_cases (b : Builder) :
    (∃ g, b.built = some g ∧ b.build = (b, .ok g)) ∨
      (b.built = none ∧
        (b.attempt ≠ [] → b.attempt.length < b.closedDeclarations.length) ∧
        ∃ e, b.build = ({ b with resolved := b.resolved ++ b.attempt }, .error e)) ∨
      (b.built = none ∧ b.failure = none ∧ ∃ start, b.resolveStart = .ok start ∧
        b.resolveFrom 0 b.closedDeclarations = (b.attempt, none) ∧
        b.build = ({ b with resolved := b.resolved ++ b.attempt, built := some (b.assemble start) },
          .ok (b.assemble start))) := by
  obtain ⟨name, ts, ns, st, ds, cl, resolved, failure, built⟩ := b
  cases built with
  | some g => exact .inl ⟨g, rfl, rfl⟩
  | none =>
      refine .inr ?_
      cases failure with
      | some e => exact .inl ⟨rfl, by simp [attempt], e, by simp [build, attempt]⟩
      | none =>
          cases hs : (mk name ts ns st ds cl resolved none none).resolveStart with
          | error fault =>
              exact .inl ⟨rfl, by simp [attempt, hs], ⟨name, fault⟩,
                by simp [build, attempt, error, hs]⟩
          | ok start =>
              cases hr : (mk name ts ns st ds cl resolved none none).resolveFrom 0
                (mk name ts ns st ds cl resolved none none).closedDeclarations with
              | mk rules fault =>
                  cases fault with
                  | some fault =>
                      have hlt := length_lt_of_resolveFrom hr
                      exact .inl ⟨rfl, by simpa [attempt, hs, hr] using fun _ => hlt,
                        ⟨name, fault⟩, by simp [build, attempt, error, hs, hr]⟩
                  | none =>
                      exact .inr ⟨rfl, rfl, start, rfl, by simp [attempt, hs, hr],
                        by simp [build, attempt, assemble, hs, hr]⟩

-- What a fresh builder returns is the resolution of its declarations.
theorem build_eq_ok {b : Builder} (hb : b.IsFresh) {g : Grammar} (h : b.build.2 = .ok g) :
    b.resolveStart = .ok g.start ∧ g.terminals = b.terminals ∧ g.nonterminals = b.nonterminals ∧
      g.rules = (b.resolveFrom 0 b.closedDeclarations).1 ∧ g.declared = g.rules := by
  rcases b.build_cases with ⟨g', hg, -⟩ | ⟨-, -, e, he⟩ | ⟨-, -, start, hs, hr, he⟩
  · rw [hb.2] at hg
    cases hg
  · rw [he] at h
    cases h
  · rw [he] at h
    obtain rfl := Except.ok.inj h
    have hrules : (b.assemble start).rules = b.attempt := by simp [assemble, hb.1]
    exact ⟨hs, rfl, rfl, by rw [hrules, hr], hrules.symm⟩

end Builder

theorem Grammar.IsFirstBuild.wellFormed {g : Grammar} (h : g.IsFirstBuild) : g.WellFormed := by
  obtain ⟨name, history, hn, hg⟩ := h
  have hb := Builder.isFresh_after name history hn
  obtain ⟨hs, ht, hnt, hr, -⟩ := Builder.build_eq_ok hb hg
  have hrule : ∀ (i : Nat) (r : Rule), g.rules[i]? = some r →
      r.serial = i ∧ r.lhs < g.nonterminals.length ∧ ∀ x ∈ r.rhs, g.Declares x := by
    intro i r h
    rw [hr] at h
    obtain ⟨h₁, h₂, h₃⟩ := Builder.resolveFrom_getElem? h
    simp only [Declares, ht, hnt]
    exact ⟨by omega, h₂, h₃⟩
  refine ⟨⟨hnt ▸ Builder.resolveStart_lt hs, ?_, ?_⟩, fun i r h => (hrule i r h).1⟩
  · intro r hm
    obtain ⟨i, hi⟩ := List.mem_iff_getElem?.mp hm
    exact (hrule i r hi).2.1
  · intro r hm
    obtain ⟨i, hi⟩ := List.mem_iff_getElem?.mp hm
    exact (hrule i r hi).2.2

namespace GrammarSource

open Builder

-- The operations that declare rules, the first of them through handle number `k`.
def ruleOperations : (k : Nat) → List Declaration → List Operation
  | _, [] => []
  | k, d :: rest =>
    .beginRule d.lhs :: (d.rhs.map (.append ⟨k⟩) ++ .close ⟨k⟩ :: ruleOperations (k + 1) rest)

-- The history of operations that declares a grammar written down as a whole.
def history (s : GrammarSource) : List Operation :=
  s.terminals.map (fun t => .terminal t.name t.type) ++ s.nonterminals.map .nonterminal ++
    .setStart s.start :: ruleOperations 0 s.rules

theorem build_notMem_history (s : GrammarSource) : .build ∉ s.history := by
  have hrules : ∀ k ds, Operation.build ∉ ruleOperations k ds := by
    intro k ds
    induction ds generalizing k with
    | nil => simp [ruleOperations]
    | cons d rest ih => simp [ruleOperations, ih]
  simp [history, hrules]

theorem length_declarations_append (b : Builder) (h : Handle) (refs : List Reference) :
    (refs.foldl (fun b ref => b.append h ref) b).declarations.length = b.declarations.length := by
  induction refs generalizing b with
  | nil => rfl
  | cons ref rest ih => rw [List.foldl_cons, ih, Builder.append, List.length_modify]

theorem declarations_close (b : Builder) (h : Handle) :
    (b.close h).1.declarations = b.declarations := by
  unfold close
  split <;> rfl

theorem foldl_ruleOperations (ds : List Declaration) (b : Builder) (k : Nat)
    (hk : b.declarations.length = k) :
    (ruleOperations k ds).foldl perform b = ds.foldl (fun b d => (b.rule d.lhs d.rhs).1) b := by
  induction ds generalizing b k with
  | nil => rfl
  | cons d rest ih =>
      have hlen : (b.rule d.lhs d.rhs).1.declarations.length = k + 1 := by
        simp [rule, declarations_close, length_declarations_append, beginRule, hk]
      rw [List.foldl_cons, ← ih _ _ hlen]
      simp only [ruleOperations, List.foldl_cons, List.foldl_append, List.foldl_map, perform,
        Builder.rule, beginRule, hk]

theorem declarations_terminal (b : Builder) (name : Text) (type : TokenType) :
    (b.terminal name type).1.declarations = b.declarations := by
  unfold terminal
  split
  · rfl
  · split <;> rfl

theorem declarations_nonterminal (b : Builder) (name : Text) :
    (b.nonterminal name).1.declarations = b.declarations := by
  unfold nonterminal
  split
  · rfl
  · split <;> rfl

-- Building a grammar written down as a whole is building it after its history.
theorem build_eq_after (s : GrammarSource) : s.build = (after s.name s.history).build.2 := by
  have ht : ∀ (ts : List Terminal) (b : Builder),
      (ts.foldl (fun b t => (b.terminal t.name t.type).1) b).declarations = b.declarations := by
    intro ts
    induction ts with
    | nil => exact fun b => rfl
    | cons t ts ih => exact fun b => (ih _).trans (declarations_terminal b t.name t.type)
  have hn : ∀ (ns : List Text) (b : Builder),
      (ns.foldl (fun b name => (b.nonterminal name).1) b).declarations = b.declarations := by
    intro ns
    induction ns with
    | nil => exact fun b => rfl
    | cons name ns ih => exact fun b => (ih _).trans (declarations_nonterminal b name)
  unfold GrammarSource.build after history
  simp only [List.foldl_append, List.foldl_map, List.foldl_cons, perform]
  rw [foldl_ruleOperations]
  simp [setStart, ht, hn, Builder.new]

theorem isFirstBuild {s : GrammarSource} {g : Grammar} (h : s.build.toOption = some g) :
    g.IsFirstBuild :=
  ⟨s.name, s.history, s.build_notMem_history, s.build_eq_after ▸ eq_ok_of_toOption h⟩

end GrammarSource

theorem Expression.isFirstBuild : Expression.grammar.IsFirstBuild :=
  GrammarSource.isFirstBuild Expression.build_source

end Lookahead
