import Lookahead.Proofs.Builder.SymbolTable
import Mathlib.Data.List.Induction

/-!
What a closed rule is made of. A handle and the builder share one declaration, so that a rule holds
all that has been appended to its handle by the time the grammar is built. It is what it was when it
was closed if and only if nothing has been appended to its handle since.
-/

namespace Lookahead

-- Where a function has a value for every item, nothing moves.
theorem getElem?_filterMap {α β : Type} {f : α → Option β} {l : List α}
    (h : ∀ a ∈ l, (f a).isSome = true) (i : Nat) : (l.filterMap f)[i]? = l[i]?.bind f := by
  induction l generalizing i with
  | nil => rfl
  | cons a l ih =>
      rw [List.forall_mem_cons] at h
      obtain ⟨b, hb⟩ := Option.isSome_iff_exists.mp h.1
      rw [List.filterMap_cons_some hb]
      cases i with
      | zero => exact hb.symm
      | succ i => exact ih h.2 i

-- A symbol is what a reference means: it is the one with the name, and it is of the kind.
def Grammar.Resolves (g : Grammar) (ref : Reference) (x : Symbol) : Prop :=
  g.symbol? ref.name = some x ∧ ref.kind.accepts x = true

namespace Builder

-- The left-hand sides of the rules begun in a history, each of them at the index of its handle.
def begun (history : List Operation) : List Text :=
  history.filterMap fun
    | .beginRule lhs => some lhs
    | _ => none

-- What a history appends to a handle.
def appended (h : Handle) (history : List Operation) : List Reference :=
  history.filterMap fun
    | .append h' ref => if h' = h then some ref else none
    | _ => none

-- The handle that an operation uses.
def Operation.handle? : Operation → Option Handle
  | .append h _ => some h
  | .close h => some h
  | .closeEmpty h => some h
  | _ => none

-- Handles are used only after they have been handed out.
def UsesHandles (history : List Operation) : Prop :=
  ∀ i < history.length, ∀ h ∈ history[i]?.bind Operation.handle?,
    h.index < (begun (history.take i)).length

instance (history : List Operation) : Decidable (UsesHandles history) :=
  inferInstanceAs (Decidable (∀ i < history.length, ∀ h ∈ history[i]?.bind Operation.handle?,
    h.index < (begun (history.take i)).length))

-- The number that an operation answers with when it closes a rule.
def answer? (b : Builder) : Operation → Option Nat
  | .close h => (b.close h).2
  | .closeEmpty h =>
    match b.closeEmpty h with
    | .ok (_, number) => number
    | .error _ => none
  | _ => none

variable {b : Builder} {g : Grammar} {history : List Operation} {op : Operation} {h : Handle}

theorem begun_append (history later : List Operation) :
    begun (history ++ later) = begun history ++ begun later := List.filterMap_append

theorem appended_append (h : Handle) (history later : List Operation) :
    appended h (history ++ later) = appended h history ++ appended h later := List.filterMap_append

theorem UsesHandles.of_append {later : List Operation} (huses : UsesHandles (history ++ later)) :
    UsesHandles history := by
  intro i hi h hh
  have hall := huses i (by simp; omega) h (by rwa [List.getElem?_append_left hi])
  rwa [List.take_append_of_le_length (Nat.le_of_lt hi)] at hall

theorem UsesHandles.concat (huses : UsesHandles (history ++ [op])) :
    UsesHandles history ∧ ∀ h, op.handle? = some h → h.index < (begun history).length := by
  refine ⟨huses.of_append, fun h hh => ?_⟩
  simpa using huses history.length (by simp) h (by simpa using hh)

theorem appended_self (h : Handle) (ref : Reference) : appended h [.append h ref] = [ref] := by
  simp [appended]

theorem appended_of_ne {h' : Handle} (hne : h' ≠ h) (ref : Reference) :
    appended h [.append h' ref] = [] := by
  simp [appended, hne]

-- Nothing has been appended to handles that are still to come.
theorem appended_eq_nil (huses : UsesHandles history) (hh : (begun history).length ≤ h.index) :
    appended h history = [] := by
  induction history using List.reverseRecOn with
  | nil => rfl
  | append_singleton history op ih =>
      obtain ⟨hrest, hlast⟩ := huses.concat
      rw [begun_append, List.length_append] at hh
      rw [appended_append, ih hrest (by omega), List.nil_append]
      cases op with
      | append h' ref =>
          have hlt := hlast h' rfl
          have hne : h' ≠ h := by
            rintro rfl
            omega
          exact appended_of_ne hne ref
      | _ => rfl

-- Declarations are only begun and added to.
theorem declarations_perform_eq (b : Builder) (op : Operation) :
    (b.perform op).declarations =
      match op with
      | .beginRule lhs => b.declarations ++ [⟨lhs, []⟩]
      | .append h ref => b.declarations.modify h.index fun d => { d with rhs := d.rhs ++ [ref] }
      | _ => b.declarations := by
  cases op with
  | terminal name type => exact GrammarSource.declarations_terminal b name type
  | nonterminal name => exact GrammarSource.declarations_nonterminal b name
  | close h => exact GrammarSource.declarations_close b h
  | closeEmpty h =>
      simp only [perform]
      split
      · rename_i b' number he
        have hb' : b' = (b.close h).1 := congrArg Prod.fst (closeEmpty_eq_ok he)
        rw [hb', GrammarSource.declarations_close]
      · rfl
  | build =>
      rcases b.build_cases with ⟨g, -, he⟩ | ⟨-, -, e, he⟩ | ⟨-, -, start, -, -, he⟩ <;>
        simp only [perform, he]
  | _ => rfl

theorem after_concat (name : Text) (history : List Operation) (op : Operation) :
    after name (history ++ [op]) = (after name history).perform op := by
  rw [after, List.foldl_append]
  rfl

theorem length_declarations_after (name : Text) (history : List Operation) :
    (after name history).declarations.length = (begun history).length := by
  induction history using List.reverseRecOn with
  | nil => rfl
  | append_singleton history op ih =>
      rw [after_concat, declarations_perform_eq, begun_append, List.length_append, ← ih]
      cases op <;> simp [begun]

-- A handle stands for the rule that was begun for it, with all that has been appended to it.
theorem declaration_after (name : Text) (huses : UsesHandles history) (h : Handle) :
    (after name history).declarations[h.index]? =
      (begun history)[h.index]?.map fun lhs => ⟨lhs, appended h history⟩ := by
  induction history using List.reverseRecOn with
  | nil => rfl
  | append_singleton history op ih =>
      obtain ⟨hrest, -⟩ := huses.concat
      have hlength := length_declarations_after name history
      rw [after_concat, declarations_perform_eq, begun_append, appended_append]
      cases op with
      | beginRule lhs =>
          have hbegun : begun [.beginRule lhs] = [lhs] := rfl
          have happended : appended h [.beginRule lhs] = [] := rfl
          rw [hbegun, happended, List.append_nil]
          rcases Nat.lt_trichotomy h.index (begun history).length with hlt | heq | hgt
          · rw [List.getElem?_append_left (hlength ▸ hlt), List.getElem?_append_left hlt, ih hrest]
          · have hnil := appended_eq_nil hrest heq.ge
            simp [heq, hlength, hnil]
          · rw [List.getElem?_eq_none (by simpa [hlength]), List.getElem?_eq_none (by simpa)]
            rfl
      | append h' ref =>
          have hbegun : begun [.append h' ref] = [] := rfl
          rw [hbegun, List.append_nil, List.getElem?_modify, ih hrest]
          by_cases hh : h' = h
          · subst hh
            rw [appended_self]
            simp [Function.comp_def]
          · have hindex : h'.index ≠ h.index := fun he => hh (congrArg Handle.mk he)
            rw [appended_of_ne hh]
            simp [hindex]
      | _ => simpa [begun, appended] using ih hrest

-- An operation closes at most one rule, the one of its handle.
theorem closed_perform_cases (b : Builder) (op : Operation) :
    (b.perform op).closed = b.closed ∨
      ∃ h, op.handle? = some h ∧ (b.perform op).closed = b.closed ++ [h.index] := by
  have hclose : ∀ h : Handle, (b.close h).1.closed = b.closed ∨
      (b.close h).1.closed = b.closed ++ [h.index] := by
    intro h
    unfold close
    split
    · exact .inl rfl
    · exact .inr rfl
  cases op with
  | terminal name type =>
      rcases b.terminal_cases name type with ⟨failure, e, he⟩ | ⟨-, -, -, he⟩ <;>
        exact .inl (by rw [perform, he])
  | nonterminal name =>
      rcases b.nonterminal_cases name with ⟨failure, e, he⟩ | ⟨-, -, he⟩ <;>
        exact .inl (by rw [perform, he])
  | close h => exact (hclose h).imp_right fun he => ⟨h, rfl, he⟩
  | closeEmpty h =>
      simp only [perform]
      split
      · rename_i b' number he
        have hb' : b' = (b.close h).1 := congrArg Prod.fst (closeEmpty_eq_ok he)
        rw [hb']
        exact (hclose h).imp_right fun he => ⟨h, rfl, he⟩
      · exact .inl rfl
  | build =>
      rcases b.build_cases with ⟨g, -, he⟩ | ⟨-, -, e, he⟩ | ⟨-, -, start, -, -, he⟩ <;>
        exact .inl (by rw [perform, he])
  | _ => exact .inl rfl

theorem closed_prefix_foldl (b : Builder) (history : List Operation) :
    b.closed <+: (history.foldl perform b).closed := by
  induction history generalizing b with
  | nil => exact List.prefix_rfl
  | cons op rest ih =>
      have hstep : b.closed <+: (b.perform op).closed := by
        rcases b.closed_perform_cases op with he | ⟨h, -, he⟩
        · exact he ▸ List.prefix_rfl
        · exact he ▸ List.prefix_append _ _
      exact hstep.trans (ih (b.perform op))

-- Rules are closed only after they have been begun.
theorem closed_lt (name : Text) (huses : UsesHandles history) :
    ∀ i ∈ (after name history).closed, i < (begun history).length := by
  induction history using List.reverseRecOn with
  | nil => exact fun i hi => nomatch hi
  | append_singleton history op ih =>
      obtain ⟨hrest, hlast⟩ := huses.concat
      intro i hi
      rw [begun_append, List.length_append]
      rw [after_concat] at hi
      rcases (after name history).closed_perform_cases op with he | ⟨h, hh, he⟩
      · have hlt := ih hrest i (he ▸ hi)
        omega
      · rw [he, List.mem_append, List.mem_singleton] at hi
        rcases hi with hi | rfl
        · have hlt := ih hrest i hi
          omega
        · have hlt := hlast h hh
          omega

-- The declaration of a closed rule is found at its number.
theorem closedDeclarations_after (name : Text) (huses : UsesHandles history) {serial : Nat}
    (hclosed : (after name history).closed[serial]? = some h.index) :
    (after name history).closedDeclarations[serial]? =
      (begun history)[h.index]?.map fun lhs => ⟨lhs, appended h history⟩ := by
  have hsome : ∀ i ∈ (after name history).closed,
      (after name history).declarations[i]?.isSome = true := by
    intro i hi
    have hlt := closed_lt name huses i hi
    rw [← length_declarations_after name history] at hlt
    simp [hlt]
  rw [closedDeclarations, getElem?_filterMap hsome, hclosed]
  exact declaration_after name huses h

-- The number that is answered is the place of the rule among the closed ones. A rule that is closed
-- as an empty one is empty then.
theorem closed_of_answer {serial : Nat} (hh : op.handle? = some h)
    (hs : b.answer? op = some serial) :
    (b.perform op).closed[serial]? = some h.index ∧
      (op = .closeEmpty h → ∀ d, b.declarations[h.index]? = some d → d.rhs = []) := by
  have hclose : (b.close h).2 = some serial → (b.close h).1.closed[serial]? = some h.index := by
    intro hs
    unfold close at hs ⊢
    split at hs
    · cases hs
    · rename_i hbuilt
      obtain rfl := Option.some.inj hs
      simp [hbuilt]
  cases op with
  | close h' =>
      obtain rfl := Option.some.inj hh
      exact ⟨hclose hs, fun he => nomatch he⟩
  | closeEmpty h' =>
      obtain rfl := Option.some.inj hh
      cases he : b.closeEmpty h' with
      | error e => simp [answer?, he] at hs
      | ok answer =>
          have hs' : (b.close h').2 = some serial := by
            rw [← closeEmpty_eq_ok he]
            simpa [answer?, he] using hs
          refine ⟨?_, fun _ d hd => ?_⟩
          · simp only [perform, he]
            rw [closeEmpty_eq_ok he]
            exact hclose hs'
          · unfold closeEmpty at he
            rw [hd] at he
            by_cases hempty : d.rhs.isEmpty
            · simpa using hempty
            · simp [hempty] at he
  | _ => cases hs

-- The grammar finds the symbols that its builder has found.
theorem symbol?_of_builder (hb : IsSymbolTable b.terminals b.nonterminals)
    (ht : g.terminals = b.terminals) (hn : g.nonterminals = b.nonterminals) {n : Text} {x : Symbol}
    (hx : b.symbol? n = some x) : g.symbol? n = some x := by
  have hmem : n ∈ b.terminals.map (·.name) ++ b.nonterminals := by
    by_contra hnot
    rw [symbol?, symbolNamed?_eq_none_iff.mpr hnot] at hx
    cases hx
  rw [Grammar.symbol?, if_neg (hb.names_ne n hmem).2.2, ht, hn]
  exact hx

section Resolved

variable (hsymbol : ∀ n x, b.symbol? n = some x → g.symbol? n = some x) {serial : Nat}

include hsymbol

theorem resolves_of_mapM {refs : List Reference} {symbols : List Symbol}
    (hm : refs.mapM (b.resolveReference serial) = .ok symbols) :
    List.Forall₂ g.Resolves refs symbols := by
  induction refs generalizing symbols with
  | nil =>
      cases hm
      exact .nil
  | cons ref rest ih =>
      rw [List.mapM_cons] at hm
      obtain ⟨x, hx, hm⟩ := bind_eq_ok hm
      obtain ⟨tail, htail, hm⟩ := bind_eq_ok hm
      cases hm
      refine .cons ?_ (ih htail)
      unfold resolveReference at hx
      split at hx
      · rename_i y hy
        split at hx
        · rename_i hkind
          cases hx
          exact ⟨hsymbol _ _ hy, hkind⟩
        · cases hx
      · cases hx

-- A rule consists of what its declaration refers to.
theorem resolves_of_resolve {d : Declaration} {r : Rule} (hr : b.resolve serial d = .ok r) :
    g.symbol? d.lhs = some (.nonterminal r.lhs) ∧ List.Forall₂ g.Resolves d.rhs r.rhs := by
  unfold resolve at hr
  split at hr
  · rename_i lhs hl
    obtain ⟨rhs, hm, hr⟩ := bind_eq_ok hr
    cases hr
    exact ⟨hsymbol _ _ hl, resolves_of_mapM hsymbol hm⟩
  · cases hr

end Resolved

-- A rule is resolved from its declaration as it stands when the grammar is built.
theorem rule_of_closedDeclarations (hb : b.IsFresh) (hg : b.build.2 = .ok g) {serial : Nat}
    {d : Declaration} (hd : b.closedDeclarations[serial]? = some d) :
    ∃ r, g.rule? serial = some r ∧ b.resolve serial d = .ok r := by
  have hsame : { b with resolved := b.resolved }.build.2 = .ok g := hg
  obtain ⟨g₀, -, hres, -, rfl⟩ := build_of_leftovers hb hsame
  obtain ⟨r, hr, hresolve⟩ := hres.resolve_eq serial d hd
  exact ⟨r, by simpa [Grammar.rule?, hb.1] using hr, hresolve⟩

theorem appended_of_answer {serial : Nat} (hs : b.answer? op = some serial) :
    appended h [op] = [] := by
  cases op with
  | append h' ref => cases hs
  | _ => rfl

section Closed

variable {before later : List Operation} {serial : Nat}

-- The number that is answered is that of the declaration of the handle, which goes on to grow.
theorem declaration_of_answer (name : Text) (huses : UsesHandles (before ++ op :: later))
    (hh : op.handle? = some h) (hs : (after name before).answer? op = some serial) :
    ∃ lhs, (begun before)[h.index]? = some lhs ∧
      (after name (before ++ op :: later)).closedDeclarations[serial]? =
        some ⟨lhs, appended h before ++ appended h later⟩ ∧
      (op = .closeEmpty h → appended h before = []) := by
  have hsplit : before ++ op :: later = (before ++ [op]) ++ later := by simp
  obtain ⟨hbefore, hlt⟩ := (hsplit ▸ huses).of_append.concat
  obtain ⟨lhs, hlhs⟩ : ∃ lhs, (begun before)[h.index]? = some lhs :=
    ⟨_, List.getElem?_eq_getElem (hlt h hh)⟩
  obtain ⟨hclosed, hempty⟩ := closed_of_answer hh hs
  refine ⟨lhs, hlhs, ?_, fun he => ?_⟩
  · have hafter : after name (before ++ op :: later) =
        later.foldl perform ((after name before).perform op) := by
      rw [hsplit, after, List.foldl_append, ← after, after_concat]
    obtain ⟨more, hmore⟩ := closed_prefix_foldl ((after name before).perform op) later
    have hstill : (after name (before ++ op :: later)).closed[serial]? = some h.index := by
      rw [hafter, ← hmore, List.getElem?_append_left (List.getElem?_eq_some_iff.mp hclosed).1,
        hclosed]
    have hbegun : (begun (before ++ op :: later))[h.index]? = some lhs := by
      rw [begun_append, List.getElem?_append_left (hlt h hh), hlhs]
    have happended : appended h (before ++ op :: later) =
        appended h before ++ appended h later := by
      rw [hsplit, appended_append, appended_append, appended_of_answer hs, List.append_nil]
    rw [closedDeclarations_after name huses hstill, hbegun, happended, Option.map_some]
  · have hdeclared := declaration_after name hbefore h
    rw [hlhs, Option.map_some] at hdeclared
    exact hempty he _ hdeclared

-- A closed rule has the left-hand side of its handle, and on its right-hand side what has been
-- appended to the handle before it was closed, and after. This is what it was closed with if
-- nothing has been appended any more, and only then; then a rule closed as an empty one is empty.
theorem rule_of_closed {name : Text} (hops : .build ∉ history) (huses : UsesHandles history)
    (hg : (after name history).build.2 = .ok g) (hsplit : history = before ++ op :: later)
    (hh : op.handle? = some h) (hs : (after name before).answer? op = some serial) :
    ∃ r lhs, g.rule? serial = some r ∧ r.serial = serial ∧
      (begun before)[h.index]? = some lhs ∧ g.symbol? lhs = some (.nonterminal r.lhs) ∧
      List.Forall₂ g.Resolves (appended h before ++ appended h later) r.rhs ∧
      (List.Forall₂ g.Resolves (appended h before) r.rhs ↔ appended h later = []) ∧
      (op = .closeEmpty h → appended h before = [] ∧
        (r.isEpsilon = true ↔ appended h later = [])) := by
  have hfresh := isFresh_after name history hops
  obtain ⟨-, hterminals, hnonterminals, -, -⟩ := build_eq_ok hfresh hg
  have hsymbol := fun n x => symbol?_of_builder (isSound_after name history).table hterminals
    hnonterminals (n := n) (x := x)
  subst hsplit
  obtain ⟨lhs, hlhs, hd, hempty⟩ := declaration_of_answer name huses hh hs
  obtain ⟨r, hr, hresolve⟩ := rule_of_closedDeclarations hfresh hg hd
  obtain ⟨hl, hrhs⟩ := resolves_of_resolve hsymbol hresolve
  have hlength := hrhs.length_eq
  rw [List.length_append] at hlength
  refine ⟨r, lhs, hr, (resolve_eq_ok hresolve).1, hlhs, hl, hrhs, ⟨fun hsame => ?_, fun hnil => ?_⟩,
    fun he => ⟨hempty he, ?_⟩⟩
  · have hshort := hsame.length_eq
    exact List.length_eq_zero_iff.mp (by omega)
  · rwa [hnil, List.append_nil] at hrhs
  · rw [hempty he, List.length_nil, Nat.zero_add] at hlength
    rw [Rule.isEpsilon, List.isEmpty_iff, ← List.length_eq_zero_iff, ← hlength,
      List.length_eq_zero_iff]

end Closed

-- Two rules are declared in turns, and symbols come to the second one while the first one is
-- closed.
def interleaved : List Operation :=
  [.terminal (text "a") 0x61, .nonterminal (text "S"), .setStart (text "S"),
    .beginRule (text "S"), .beginRule (text "S"), .append ⟨1⟩ ⟨text "a", .terminal⟩]

def interleavedGrammar : Grammar :=
  let rules : List Rule := [⟨0, 0, []⟩, ⟨1, 0, [.terminal 0, .nonterminal 0]⟩]
  { name := text "G", terminals := [⟨text "a", 0x61⟩], nonterminals := [text "S"], rules := rules,
    declared := rules, start := 0 }

theorem rule_of_closed_interleaved :
    (after (text "G") interleaved).answer? (.closeEmpty ⟨0⟩) = some 0 ∧
      (after (text "G") (interleaved ++ .closeEmpty ⟨0⟩ ::
        [.append ⟨1⟩ ⟨text "S", .nonterminal⟩, .close ⟨1⟩])).build.2 = .ok interleavedGrammar ∧
      ∃ r, interleavedGrammar.rule? 0 = some r ∧ r.isEpsilon = true := by
  have hbuild : (after (text "G") (interleaved ++ .closeEmpty ⟨0⟩ ::
      [.append ⟨1⟩ ⟨text "S", .nonterminal⟩, .close ⟨1⟩])).build.2 = .ok interleavedGrammar :=
    eq_ok_of_toOption (by decide +kernel)
  have hanswer : (after (text "G") interleaved).answer? (.closeEmpty ⟨0⟩) = some 0 := by
    decide +kernel
  obtain ⟨r, lhs, hr, -, -, -, -, -, hempty⟩ :=
    rule_of_closed (by decide) (by decide) hbuild rfl rfl hanswer
  exact ⟨hanswer, hbuild, r, hr, (hempty rfl).2.mpr (by decide)⟩

-- A rule is closed as an empty one, and a terminal is appended to its handle afterwards.
def emptied : List Operation :=
  [.terminal (text "a") 0x61, .nonterminal (text "S"), .setStart (text "S"), .beginRule (text "S")]

def extendedGrammar : Grammar :=
  { name := text "G", terminals := [⟨text "a", 0x61⟩], nonterminals := [text "S"],
    rules := [⟨0, 0, [.terminal 0]⟩], declared := [⟨0, 0, [.terminal 0]⟩], start := 0 }

-- The rule is not empty in the end.
theorem emptied_extended :
    (after (text "G") emptied).answer? (.closeEmpty ⟨0⟩) = some 0 ∧ appended ⟨0⟩ emptied = [] ∧
      (after (text "G") (emptied ++ .closeEmpty ⟨0⟩ ::
        [.append ⟨0⟩ ⟨text "a", .terminal⟩])).build.2 = .ok extendedGrammar ∧
      ∃ r, extendedGrammar.rule? 0 = some r ∧ r.isEpsilon = false ∧
        ¬List.Forall₂ extendedGrammar.Resolves (appended ⟨0⟩ emptied) r.rhs := by
  have hempty : appended ⟨0⟩ emptied = [] := by decide
  refine ⟨by decide +kernel, hempty, eq_ok_of_toOption (by decide +kernel), ⟨0, 0, [.terminal 0]⟩,
    rfl, rfl, ?_⟩
  rw [hempty]
  exact fun h => nomatch h

end Builder

end Lookahead
