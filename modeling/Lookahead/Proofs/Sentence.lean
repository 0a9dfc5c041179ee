import Lookahead.Proofs.Builder
import Lookahead.Proofs.Derivation

/-!
Sentences, and symbols that lead to strings of terminals. If all non-terminals do, every sentential
form can be completed to a sentence.
-/

namespace Lookahead.Grammar

def IsTerminalString (s : List Symbol) : Prop := ∀ x ∈ s, x.isTerminal = true

-- A string of terminals that the start symbol derives.
def IsSentence (g : Grammar) (s : List Symbol) : Prop :=
  IsTerminalString s ∧ g.Derives [.nonterminal g.start] s

-- Whether a symbol derives some string of terminals.
def IsProductive (g : Grammar) (x : Symbol) : Prop :=
  ∃ s, IsTerminalString s ∧ g.Derives [x] s

-- Whether a non-terminal occurs in some sentential form.
def IsReachable (g : Grammar) (i : Nat) : Prop :=
  ∃ u v, g.Derives [.nonterminal g.start] (u ++ .nonterminal i :: v)

variable {g : Grammar} {s t : List Symbol} {x : Symbol}

theorem isTerminalString_append :
    IsTerminalString (s ++ t) ↔ IsTerminalString s ∧ IsTerminalString t := by
  simp only [IsTerminalString, List.mem_append, or_imp, forall_and]

theorem isProductive_terminal (g : Grammar) (i : Nat) : g.IsProductive (.terminal i) :=
  ⟨[.terminal i], by simp [IsTerminalString, Symbol.isTerminal], .refl _⟩

-- A string of symbols that lead to terminals does so as a whole.
theorem exists_terminalString (h : ∀ x ∈ s, g.IsProductive x) :
    ∃ t, IsTerminalString t ∧ g.Derives s t := by
  induction s with
  | nil => exact ⟨[], by simp [IsTerminalString], .refl []⟩
  | cons x s ih =>
      obtain ⟨t₁, h₁, hd₁⟩ := h x List.mem_cons_self
      obtain ⟨t₂, h₂, hd₂⟩ := ih fun y hy => h y (List.mem_cons_of_mem x hy)
      exact ⟨t₁ ++ t₂, isTerminalString_append.mpr ⟨h₁, h₂⟩, hd₁.append hd₂⟩

theorem IsProductive.of_rule {r : Rule} (hr : r ∈ g.rules) (h : ∀ x ∈ r.rhs, g.IsProductive x) :
    g.IsProductive (.nonterminal r.lhs) := by
  obtain ⟨t, ht, hd⟩ := exists_terminalString h
  exact ⟨t, ht, (derives_rule hr).trans hd⟩

-- With productive non-terminals, all symbols of the grammar are productive.
theorem isProductive_of_declares
    (hp : ∀ i < g.nonterminals.length, g.IsProductive (.nonterminal i)) (hx : g.Declares x) :
    g.IsProductive x := by
  cases x with
  | terminal i => exact isProductive_terminal g i
  | nonterminal i => exact hp i hx
  | endOfInput => exact hx.elim

theorem WellFormed.declares_start (hg : g.WellFormed) : g.Declares (.nonterminal g.start) :=
  hg.start_lt

-- The symbols of a sentential form are declared.
theorem WellFormed.declares_of_mem (hg : g.WellFormed) (hd : g.Derives s t)
    (hs : ∀ x ∈ s, g.Declares x) : ∀ x ∈ t, g.Declares x :=
  hd.forall_mem (fun r hr x hx => hg.rhs_declared r hr x hx) hs

-- A sentential form is completed to a sentence behind any string of terminals it begins with.
theorem WellFormed.exists_sentence (hg : g.WellFormed)
    (hp : ∀ i < g.nonterminals.length, g.IsProductive (.nonterminal i))
    (hs : IsTerminalString s) (hd : g.Derives [.nonterminal g.start] (s ++ t)) :
    ∃ rest, g.IsSentence (s ++ rest) := by
  have hdeclared := hg.declares_of_mem hd (by simpa using hg.declares_start)
  obtain ⟨rest, hrest, ht⟩ := exists_terminalString (g := g) (s := t) fun x hx =>
    isProductive_of_declares hp (hdeclared x (List.mem_append_right s hx))
  exact ⟨rest, isTerminalString_append.mpr ⟨hs, hrest⟩, hd.trans ((Derives.refl s).append ht)⟩

end Lookahead.Grammar
