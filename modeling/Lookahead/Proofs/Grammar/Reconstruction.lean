import Lookahead.Grammar.Fingerprint
import Lookahead.Proofs.Builder.SymbolTable
import Lookahead.Table.Basic

/-!
Building a grammar again from its description. A description has names only, but a name tells the
kind and the place of its symbol, and the place of a rule tells its number.
-/

namespace Lookahead

namespace Description

def reference (d : Description) (name : Text) : Reference :=
  ⟨name, if name ∈ d.terminals.map (·.name) then .terminal else .nonterminal⟩

-- What has to be declared for a grammar of this description.
def source (d : Description) : GrammarSource :=
  { name := d.name
    terminals := d.terminals
    nonterminals := d.nonterminals
    start := d.start
    rules := d.rules.map fun names => ⟨names.headD [], names.tail.map d.reference⟩ }

end Description

-- The declaration that a description has for a rule.
def Grammar.declarationOf (g : Grammar) (r : Rule) : Declaration :=
  ⟨g.nameOf (.nonterminal r.lhs), (r.rhs.map g.nameOf).map g.describe.reference⟩

-- Whether all that a grammar is made of has been declared, and nothing else.
structure Builder.IsReadyFor (b : Builder) (g : Grammar) : Prop where
  name_eq : b.name = g.name
  terminals_eq : b.terminals = g.terminals
  nonterminals_eq : b.nonterminals = g.nonterminals
  start_eq : b.start = g.startName
  closedDeclarations_eq : b.closedDeclarations = g.rules.map g.declarationOf
  resolved_eq : b.resolved = []
  failure_eq : b.failure = none
  built_eq : b.built = none

namespace IsSymbolTable

variable {terminals : List Terminal} {nonterminals : List Text}

-- Symbols have names that the symbols before them do not have.
theorem terminal_new {t : Terminal} {rest : List Terminal}
    (h : IsSymbolTable (terminals ++ t :: rest) nonterminals) :
    t.name ∉ terminals.map (·.name) ++ nonterminals ∧ ∀ t' ∈ terminals, t'.type ≠ t.type := by
  have hnames := h.names_nodup
  have htypes := h.types_nodup
  rw [List.map_append, List.map_cons, List.append_assoc, List.cons_append,
    List.nodup_middle] at hnames
  rw [List.map_append, List.map_cons, List.nodup_middle] at htypes
  constructor
  · intro hmem
    apply (List.nodup_cons.mp hnames).1
    rcases List.mem_append.mp hmem with hmem | hmem
    · exact List.mem_append_left _ hmem
    · exact List.mem_append_right _ (List.mem_append_right _ hmem)
  · intro t' ht' he
    exact (List.nodup_cons.mp htypes).1
      (List.mem_append_left _ (List.mem_map.mpr ⟨t', ht', he⟩))

theorem without_nonterminals (h : IsSymbolTable terminals nonterminals) :
    IsSymbolTable terminals [] where
  names_nodup := by simpa using h.names_nodup.of_append_left
  names_ne := by
    intro name hmem
    rw [List.append_nil] at hmem
    exact h.names_ne name (List.mem_append_left _ hmem)
  types_nodup := h.types_nodup
  types_ne := h.types_ne

theorem nonterminal_new {name : Text} {rest : List Text}
    (h : IsSymbolTable terminals (nonterminals ++ name :: rest)) :
    name ∉ terminals.map (·.name) ++ nonterminals := by
  have hnames := h.names_nodup
  rw [← List.append_assoc, List.nodup_middle] at hnames
  exact fun hmem => (List.nodup_cons.mp hnames).1 (List.mem_append_left _ hmem)

end IsSymbolTable

namespace Builder

variable {b : Builder}

theorem nameFault?_of_notMem {name : Text}
    (hname : name ≠ [] ∧ name ≠ epsilonName ∧ name ≠ endOfInputName)
    (hnew : name ∉ b.terminals.map (·.name) ++ b.nonterminals) : b.nameFault? name = none := by
  have hsymbol : b.symbol? name = none := symbolNamed?_eq_none_iff.mpr hnew
  simp [nameFault?, hname, hsymbol]

-- The symbols of a table are registered one after the other, and none is refused.
theorem foldl_terminal (hb : b.built = none) (ts : List Terminal)
    (htable : IsSymbolTable (b.terminals ++ ts) b.nonterminals) :
    ts.foldl (fun b t => (b.terminal t.name t.type).1) b =
      { b with terminals := b.terminals ++ ts } := by
  induction ts generalizing b with
  | nil => simp
  | cons t ts ih =>
      obtain ⟨hname, htype⟩ := htable.terminal_new
      have hfault : b.nameFault? t.name = none := by
        refine nameFault?_of_notMem (htable.names_ne _ ?_) hname
        simp
      have hfault' : b.typeFault? t.name t.type = none := by
        have hne := htable.types_ne t (by simp)
        simpa [typeFault?, hne] using htype
      have hstep : (b.terminal t.name t.type).1 = { b with terminals := b.terminals ++ [t] } := by
        simp [terminal, hb, hfault, hfault']
      rw [List.foldl_cons, hstep, ih (b := { b with terminals := b.terminals ++ [t] }) hb
        (by simpa using htable)]
      simp

theorem foldl_nonterminal (hb : b.built = none) (names : List Text)
    (htable : IsSymbolTable b.terminals (b.nonterminals ++ names)) :
    names.foldl (fun b name => (b.nonterminal name).1) b =
      { b with nonterminals := b.nonterminals ++ names } := by
  induction names generalizing b with
  | nil => simp
  | cons name names ih =>
      have hfault : b.nameFault? name = none := by
        refine nameFault?_of_notMem (htable.names_ne _ ?_) htable.nonterminal_new
        simp
      have hstep : (b.nonterminal name).1 =
          { b with nonterminals := b.nonterminals ++ [name] } := by
        simp [nonterminal, hb, hfault]
      rw [List.foldl_cons, hstep, ih (b := { b with nonterminals := b.nonterminals ++ [name] }) hb
        (by simpa using htable)]
      simp

theorem foldl_append_last (ds : List Declaration) (lhs : Text) (rhs refs : List Reference)
    (hds : b.declarations = ds ++ [⟨lhs, rhs⟩]) :
    refs.foldl (fun b ref => b.append ⟨ds.length⟩ ref) b =
      { b with declarations := ds ++ [⟨lhs, rhs ++ refs⟩] } := by
  induction refs generalizing b rhs with
  | nil =>
      rw [List.append_nil, ← hds]
      rfl
  | cons ref refs ih =>
      have hstep : (b.append ⟨ds.length⟩ ref).declarations = ds ++ [⟨lhs, rhs ++ [ref]⟩] := by
        rw [append, hds, List.modify_eq_take_cons_drop (by simp)]
        simp
      rw [List.foldl_cons, ih _ hstep]
      simp [append]

-- A rule that is declared as a whole.
theorem rule_eq (hb : b.built = none) (d : Declaration) :
    (b.rule d.lhs d.rhs).1 =
      { b with declarations := b.declarations ++ [d],
               closed := b.closed ++ [b.declarations.length] } := by
  have happend := foldl_append_last (b := (b.beginRule d.lhs).1) b.declarations d.lhs [] d.rhs rfl
  rw [List.nil_append] at happend
  simp only [rule, beginRule] at happend ⊢
  rw [happend]
  simp [close, hb]

-- Rules that are declared as a whole are closed as they are.
theorem foldl_rule (hb : b.built = none) (hclosed : ∀ i ∈ b.closed, i < b.declarations.length)
    (ds : List Declaration) : ∃ declarations closed,
      ds.foldl (fun b d => (b.rule d.lhs d.rhs).1) b =
        { b with declarations := declarations, closed := closed } ∧
      closed.filterMap (fun i => declarations[i]?) = b.closedDeclarations ++ ds := by
  induction ds generalizing b with
  | nil => exact ⟨b.declarations, b.closed, rfl, by simp [closedDeclarations]⟩
  | cons d ds ih =>
      rw [List.foldl_cons, rule_eq hb d]
      have hclosed' : ∀ i ∈ b.closed ++ [b.declarations.length],
          i < (b.declarations ++ [d]).length := by
        intro i hi
        rw [List.length_append, List.length_singleton]
        rcases List.mem_append.mp hi with hi | hi
        · exact Nat.lt_succ_of_lt (hclosed i hi)
        · rw [List.mem_singleton.mp hi]
          exact Nat.lt_succ_self _
      obtain ⟨declarations, closed, hfold, hall⟩ := ih (b := { b with
        declarations := b.declarations ++ [d], closed := b.closed ++ [b.declarations.length] })
        hb hclosed'
      refine ⟨declarations, closed, hfold, ?_⟩
      have hfront : b.closed.filterMap (fun i => (b.declarations ++ [d])[i]?) =
          b.closedDeclarations := by
        apply List.filterMap_congr
        intro i hi
        exact List.getElem?_append_left (hclosed i hi)
      rw [hall]
      simp [closedDeclarations, hfront]

end Builder

namespace Grammar

variable {g h : Grammar} {b : Builder} {x : Symbol} {r : Rule}

-- A declared symbol is found by its name.
theorem HasSymbols.symbolNamed?_nameOf (hg : g.HasSymbols) (hx : g.Declares x) :
    symbolNamed? g.terminals g.nonterminals (g.nameOf x) = some x := by
  cases x with
  | terminal i =>
      have hi : g.terminals[i]? = some g.terminals[i] := List.getElem?_eq_getElem hx
      exact hg.table.symbolNamed?_eq_terminal.mpr ⟨_, hi, by rw [nameOf, hi]; rfl⟩
  | nonterminal i =>
      have hi : g.nonterminals[i]? = some g.nonterminals[i] := List.getElem?_eq_getElem hx
      refine hg.table.symbolNamed?_eq_nonterminal.mpr ?_
      rw [nameOf, hi]
      rfl
  | endOfInput => exact hx.elim

-- The kind of a symbol is told by its name.
theorem HasSymbols.accepts_reference (hg : g.HasSymbols) (hx : g.Declares x) :
    (g.describe.reference (g.nameOf x)).kind.accepts x = true := by
  have hfound := hg.symbolNamed?_nameOf hx
  by_cases hmem : g.nameOf x ∈ g.terminals.map (·.name)
  · obtain ⟨t, ht, hname⟩ := List.mem_map.mp hmem
    obtain ⟨i, hi⟩ := List.mem_iff_getElem?.mp ht
    rw [hg.table.symbolNamed?_eq_terminal.mpr ⟨t, hi, hname⟩] at hfound
    obtain rfl := Option.some.inj hfound
    simp [Description.reference, describe, hmem, Kind.accepts, Symbol.isTerminal]
  · cases x with
    | terminal i =>
        have hi : g.terminals[i]? = some g.terminals[i] := List.getElem?_eq_getElem hx
        have hname : g.nameOf (.terminal i) = g.terminals[i].name := by
          rw [nameOf, hi]
          rfl
        exact absurd (hname ▸ List.mem_map_of_mem (List.getElem_mem hx)) hmem
    | nonterminal i =>
        simp [Description.reference, describe, hmem, Kind.accepts, Symbol.isNonterminal]
    | endOfInput => exact hx.elim

theorem HasSymbols.resolve_declarationOf (hg : g.HasSymbols) (hr : r ∈ g.rules)
    (ht : b.terminals = g.terminals) (hn : b.nonterminals = g.nonterminals) :
    b.resolve r.serial (g.declarationOf r) = .ok r := by
  have hsymbol : ∀ x, g.Declares x → b.symbol? (g.nameOf x) = some x := by
    intro x hx
    rw [Builder.symbol?, ht, hn]
    exact hg.symbolNamed?_nameOf hx
  have hreference : ∀ x, g.Declares x →
      b.resolveReference r.serial (g.describe.reference (g.nameOf x)) = .ok x := by
    intro x hx
    have hname : (g.describe.reference (g.nameOf x)).name = g.nameOf x := rfl
    simp [Builder.resolveReference, hname, hsymbol x hx, hg.accepts_reference hx]
  have hrhs : ∀ s : List Symbol, (∀ x ∈ s, g.Declares x) →
      ((s.map g.nameOf).map g.describe.reference).mapM (b.resolveReference r.serial) = .ok s := by
    intro s hs
    induction s with
    | nil => rfl
    | cons x s ih =>
        obtain ⟨hx, hs⟩ := List.forall_mem_cons.mp hs
        rw [List.map_cons, List.map_cons, List.mapM_cons, hreference x hx, ih hs]
        rfl
  have hlhs := hsymbol (.nonterminal r.lhs) (hg.lhs_lt r hr)
  simp only [Builder.resolve, declarationOf, hlhs, hrhs r.rhs (hg.rhs_declared r hr)]
  rfl

theorem HasSymbols.resolveFrom_declarations (hg : g.HasSymbols)
    (ht : b.terminals = g.terminals) (hn : b.nonterminals = g.nonterminals) {serial : Nat}
    {rules : List Rule} (hrules : rules ⊆ g.rules)
    (hserial : ∀ (i : Nat) (r : Rule), rules[i]? = some r → r.serial = serial + i) :
    b.resolveFrom serial (rules.map g.declarationOf) = (rules, none) := by
  induction rules generalizing serial with
  | nil => rfl
  | cons r rules ih =>
      obtain ⟨hr, hrules⟩ := List.cons_subset.mp hrules
      obtain rfl : r.serial = serial := hserial 0 r rfl
      have hrest : ∀ (i : Nat) (r' : Rule), rules[i]? = some r' → r'.serial = r.serial + 1 + i := by
        intro i r' hi
        rw [hserial (i + 1) r' hi]
        omega
      rw [List.map_cons, Builder.resolveFrom, hg.resolve_declarationOf hr ht hn]
      simp only [ih hrules hrest]

theorem IsFirstBuild.declared_eq (hg : g.IsFirstBuild) : g.declared = g.rules := by
  obtain ⟨name, history, hn, hg⟩ := hg
  exact (Builder.build_eq_ok (Builder.isFresh_after name history hn) hg).2.2.2.2

theorem IsFirstBuild.build_of_ready (hg : g.IsFirstBuild) (hb : b.IsReadyFor g) :
    b.build.2 = .ok g := by
  have hsymbols := hg.hasSymbols
  have hstart : b.resolveStart = .ok g.start := by
    have hfound : b.symbol? g.startName = some (.nonterminal g.start) := by
      rw [Builder.symbol?, hb.terminals_eq, hb.nonterminals_eq]
      exact hsymbols.symbolNamed?_nameOf (x := .nonterminal g.start) hsymbols.start_lt
    have hname : g.startName ≠ [] := by
      rw [startName, nameOf, List.getElem?_eq_getElem hsymbols.start_lt]
      exact (hsymbols.table.names_ne _ (List.mem_append_right _ (List.getElem_mem _))).1
    simp [Builder.resolveStart, hb.start_eq, hname, hfound]
  have hresolve : b.resolveFrom 0 b.closedDeclarations = (g.rules, none) := by
    rw [hb.closedDeclarations_eq]
    refine hsymbols.resolveFrom_declarations hb.terminals_eq hb.nonterminals_eq
      (List.Subset.refl _) fun i r hi => ?_
    rw [hg.wellFormed.serial_eq i r hi, Nat.zero_add]
  simp only [Builder.build, hb.built_eq, hb.failure_eq, hstart, hresolve, hb.resolved_eq,
    hb.name_eq, hb.terminals_eq, hb.nonterminals_eq, List.nil_append]
  exact congrArg (fun declared => Except.ok { g with declared := declared }) hg.declared_eq.symm

-- A grammar is built again from its own description.
theorem IsFirstBuild.build_source_describe (hg : g.IsFirstBuild) :
    g.describe.source.build = .ok g := by
  have htable := hg.hasSymbols.table
  have hterminals : g.terminals.foldl (fun b t => (b.terminal t.name t.type).1) (.new g.name) =
      { Builder.new g.name with terminals := g.terminals } :=
    Builder.foldl_terminal rfl g.terminals htable.without_nonterminals
  have hnonterminals : g.nonterminals.foldl (fun b name => (b.nonterminal name).1)
      { Builder.new g.name with terminals := g.terminals } =
        { Builder.new g.name with terminals := g.terminals, nonterminals := g.nonterminals } :=
    Builder.foldl_nonterminal rfl g.nonterminals htable
  have hrules : g.describe.source.rules = g.rules.map g.declarationOf := by
    simp only [Description.source, describe, List.map_map]
    rfl
  obtain ⟨declarations, closed, hfold, hclosed⟩ := Builder.foldl_rule
    (b := { Builder.new g.name with
      terminals := g.terminals, nonterminals := g.nonterminals, start := g.startName })
    rfl (by simp [Builder.new]) (g.rules.map g.declarationOf)
  have hbuild : g.describe.source.build =
      (g.describe.source.rules.foldl (fun (b : Builder) d => (b.rule d.lhs d.rhs).1)
        ((g.nonterminals.foldl (fun (b : Builder) name => (b.nonterminal name).1)
          (g.terminals.foldl (fun (b : Builder) t => (b.terminal t.name t.type).1)
            (Builder.new g.name))).setStart g.startName)).build.2 := rfl
  rw [hbuild, hrules, hterminals, hnonterminals, Builder.setStart, hfold]
  apply hg.build_of_ready
  exact ⟨rfl, rfl, rfl, rfl, hclosed, rfl, rfl, rfl⟩

-- Grammars are told apart by their descriptions.
theorem IsFirstBuild.eq_of_describe (hg : g.IsFirstBuild) (hh : h.IsFirstBuild)
    (hd : h.describe = g.describe) : h = g := by
  have hbuild := hh.build_source_describe
  rw [hd, hg.build_source_describe] at hbuild
  exact (Except.ok.inj hbuild).symm

-- Grammars with the same description have the same symbols and rules in the same places, and
-- everything that is computed from them is the same: the sets of the analysis, and with each
-- choice of options the cells, the conflicts and the error of the table.
theorem IsFirstBuild.determined_by_description (hg : g.IsFirstBuild) (hh : h.IsFirstBuild)
    (hd : h.describe = g.describe) :
    (∀ x, h.nameOf x = g.nameOf x ∧ h.typeOf x = g.typeOf x) ∧ h.start = g.start ∧
    (∀ i : Int, h.rule? i = g.rule? i) ∧ (∀ x, h.rulesFor x = g.rulesFor x) ∧
    h.analyse = g.analyse ∧
    ∀ options, Table.build h.analyse options = Table.build g.analyse options := by
  obtain rfl := hg.eq_of_describe hh hd
  exact ⟨fun _ => ⟨rfl, rfl⟩, rfl, fun _ => rfl, fun _ => rfl, rfl, fun _ => rfl⟩

end Grammar

namespace Builder

-- A grammar with two alternatives, declared in order.
def ordered : List Operation :=
  [.terminal (text "a") 0x61, .terminal (text "b") 0x62, .nonterminal (text "S"),
    .nonterminal (text "A"), .setStart (text "S"),
    .beginRule (text "S"), .append ⟨0⟩ ⟨text "A", .nonterminal⟩,
    .append ⟨0⟩ ⟨text "b", .terminal⟩, .close ⟨0⟩,
    .beginRule (text "A"), .append ⟨1⟩ ⟨text "a", .terminal⟩, .close ⟨1⟩,
    .beginRule (text "A"), .closeEmpty ⟨2⟩]

-- The same grammar, declared in another order: non-terminals come first, rules are declared side
-- by side, and one of them is never closed.
def shuffled : List Operation :=
  [.nonterminal (text "S"), .setStart (text "A"), .nonterminal (text "A"),
    .beginRule (text "A"), .beginRule (text "A"), .beginRule (text "S"), .beginRule (text "S"),
    .append ⟨2⟩ ⟨text "A", .nonterminal⟩, .append ⟨1⟩ ⟨text "a", .terminal⟩,
    .terminal (text "a") 0x61, .append ⟨2⟩ ⟨text "b", .terminal⟩,
    .append ⟨3⟩ ⟨text "b", .terminal⟩, .close ⟨2⟩, .close ⟨1⟩, .closeEmpty ⟨0⟩,
    .terminal (text "b") 0x62, .setStart (text "S")]

theorem determined_by_description_shuffled :
    ∃ g h, (after (text "G") ordered).build.2 = .ok g ∧
      (after (text "G") shuffled).build.2 = .ok h ∧ h.describe = g.describe ∧
      (∀ i : Int, h.rule? i = g.rule? i) ∧ h.analyse = g.analyse ∧
      ∀ options, Table.build h.analyse options = Table.build g.analyse options := by
  obtain ⟨g, hg, hd⟩ := exists_ok_of_any (x := (after (text "G") ordered).build.2)
    (p := fun g => (after (text "G") shuffled).build.2.toOption.any
      fun h => h.describe = g.describe) (by decide +kernel)
  obtain ⟨h, hh, hd⟩ := exists_ok_of_any hd
  have hd : h.describe = g.describe := of_decide_eq_true hd
  have hfirst : g.IsFirstBuild := ⟨text "G", ordered, by decide, hg⟩
  have hfirst' : h.IsFirstBuild := ⟨text "G", shuffled, by decide, hh⟩
  obtain ⟨-, -, hrules, -, hanalysis, htables⟩ := hfirst.determined_by_description hfirst' hd
  exact ⟨g, h, hg, hh, hd, hrules, hanalysis, htables⟩

end Builder

end Lookahead
