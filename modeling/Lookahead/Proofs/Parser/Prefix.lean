import Lookahead.Proofs.Builder.SymbolTable
import Lookahead.Proofs.Parser.Consumption
import Lookahead.Proofs.Parser.Correctness
import Lookahead.Proofs.Sentence

/-!
Where syntax errors are found. With an accepted table, the parser never consumes a token too many:
what it has matched is the beginning of a sentential form, and the token it stumbles upon is the
first one that no sentence can go on with.
-/

namespace Lookahead

namespace Grammar

variable {g : Grammar} {s u : List Symbol} {tokens more : List Token}

instance (g : Grammar) (s : List Symbol) (tokens : List Token) : Decidable (g.Binds s tokens) :=
  inferInstanceAs (Decidable (_ = _))

theorem Binds.cons {x : Symbol} {token : Token} (hx : g.terminal? token.type = some x)
    (h : g.Binds s tokens) : g.Binds (x :: s) (token :: tokens) := by
  unfold Binds at h ⊢
  rw [List.map_cons, List.map_cons, hx, h]

theorem Binds.append (h : g.Binds s tokens) (h' : g.Binds u more) :
    g.Binds (s ++ u) (tokens ++ more) := by
  unfold Binds at h h' ⊢
  rw [List.map_append, List.map_append, h, h']

theorem Binds.unique (h : g.Binds s tokens) (h' : g.Binds u tokens) : s = u :=
  List.map_injective_iff.mpr (fun _ _ => Option.some.inj) (h.symm.trans h')

theorem Binds.isTerminalString (h : g.Binds s tokens)
    (hne : ∀ token ∈ tokens, token.type ≠ TokenType.endOfInput) : IsTerminalString s := by
  intro x hx
  have hmem : some x ∈ tokens.map (fun t => g.terminal? t.type) := h ▸ List.mem_map_of_mem hx
  obtain ⟨token, htoken, hb⟩ := List.mem_map.mp hmem
  obtain ⟨i, rfl⟩ := terminal?_eq_terminal (hne token htoken) hb
  rfl

-- Every string of terminals is bound to the types of some tokens.
theorem HasSymbols.exists_tokens (hg : g.HasSymbols) (hs : IsTerminalString s)
    (hd : ∀ x ∈ s, g.Declares x) :
    ∃ tokens, (∀ token ∈ tokens, token.type ≠ TokenType.endOfInput) ∧ g.Binds s tokens := by
  induction s with
  | nil => exact ⟨[], by simp, rfl⟩
  | cons x s ih =>
      obtain ⟨hx, hrest⟩ := List.forall_mem_cons.mp hs
      obtain ⟨hdx, hdrest⟩ := List.forall_mem_cons.mp hd
      obtain ⟨tokens, hne, hb⟩ := ih hrest hdrest
      cases x with
      | terminal i =>
          have htype : g.terminal? (g.typeOf (.terminal i)) = some (.terminal i) :=
            hg.table.findsSymbols.terminal?_typeOf hdx
          refine ⟨⟨g.typeOf (.terminal i), [], .null, none⟩ :: tokens, ?_, ?_⟩
          · exact List.forall_mem_cons.mpr ⟨type_ne_endOfInput htype, hne⟩
          · exact hb.cons htype
      | nonterminal i => cases hx
      | endOfInput => cases hx

end Grammar

namespace Parser

open Lookahead.Tree

variable {t : Table} {tokens tokens' : Nat → Token} {s : List Symbol} {p q n : Nat}
  {result : Except SyntaxError (List Tree)}

-- A run looks at no token behind the one at which it ends.
theorem Runs.congr (h : Runs t tokens s p q result n)
    (heq : ∀ i, p ≤ i → i ≤ q → tokens' i = tokens i) : Runs t tokens' s p q result n := by
  induction h with
  | nil => exact .nil
  | @shift i p q n s result hla hs ih =>
      have hle := hs.le
      have hp : tokens' p = tokens p := heq p (Nat.le_refl p) (by omega)
      rw [lookahead, ← hp] at hla
      rw [← hp]
      exact .shift hla (ih fun i hi hiq => heq i (by omega) hiq)
  | @mismatch i p s hla =>
      have hp : tokens' p = tokens p := heq p (Nat.le_refl p) (Nat.le_refl p)
      rw [lookahead, ← hp] at hla
      rw [lookahead, ← hp]
      exact .mismatch hla
  | @expand i p m q n n' la r s children result hla hr hc hs ihc ihs =>
      have hlec := hc.le
      have hles := hs.le
      have hp : tokens' p = tokens p := heq p (Nat.le_refl p) (by omega)
      rw [lookahead, ← hp] at hla
      exact .expand hla hr (ihc fun i hi him => heq i hi (by omega))
        (ihs fun i hi hiq => heq i (by omega) hiq)
  | @inside i p q n la r s e hla hr hc ih =>
      have hp : tokens' p = tokens p := heq p (Nat.le_refl p) hc.le
      rw [lookahead, ← hp] at hla
      exact .inside hla hr (ih heq)
  | @refuse i p s hr =>
      have hp : tokens' p = tokens p := heq p (Nat.le_refl p) (Nat.le_refl p)
      rw [lookahead, ← hp] at hr
      rw [lookahead, ← hp]
      exact .refuse hr

theorem map_eq_error {f : List Tree → List Tree} {e : SyntaxError} (h : result.map f = .error e) :
    result = .error e := by
  cases result with
  | error e' => exact h
  | ok trees => cases h

-- A syntax error is about the token at which the run ends.
theorem Runs.error_at {e : SyntaxError} (h : Runs t tokens s p q (.error e) n) :
    e.token = some (tokens q) ∧ e.position = (tokens q).span.start := by
  generalize hresult : Except.error e = result at h
  induction h with
  | nil => cases hresult
  | shift _ _ ih => exact ih (map_eq_error hresult.symm).symm
  | mismatch =>
      cases hresult
      exact ⟨rfl, rfl⟩
  | expand _ _ _ _ _ ih => exact ih (map_eq_error hresult.symm).symm
  | inside _ _ _ ih => exact ih hresult
  | refuse =>
      cases hresult
      exact ⟨rfl, rfl⟩

-- The same for a parse that ends with this run.
theorem Runs.rejected_at {e : SyntaxError} (h : Runs t tokens s p q result n)
    (hc : conclude t tokens q result = .failed (.rejected e)) :
    e.token = some (tokens q) ∧ e.position = (tokens q).span.start := by
  cases result with
  | error e' =>
      cases hc
      exact h.error_at
  | ok trees =>
      by_cases hla : lookahead t tokens q = some .endOfInput
      · rw [conclude, if_pos hla] at hc
        cases hc
      · rw [conclude, if_neg hla] at hc
        cases hc
        exact ⟨rfl, rfl⟩

-- What an error expects that arises with a symbol on top of the stack.
def Expects (t : Table) (x : Symbol) (e : SyntaxError) : Prop :=
  (x.isTerminal = true ∧ e.expected = [some x]) ∨
    ∃ i, x = .nonterminal i ∧ e.nonterminal = some x ∧ e.expected = (t.row x).map some

-- What a run has consumed is bound to the beginning of what its string derives. If the run ends with
-- an error, the symbol on top of the stack comes next.
theorem Runs.exists_front (h : Runs t tokens s p q result n) (ht : t.IsSound) :
    ∃ front rest, t.grammar.Binds front (slice tokens p q) ∧
      t.grammar.Derives s (front ++ rest) ∧
      ∀ e, result = .error e → ∃ x more, rest = x :: more ∧ Expects t x e := by
  induction h with
  | @nil p => exact ⟨[], [], by rw [slice_self]; rfl, .refl [], fun e he => nomatch he⟩
  | @shift i p q n s result hla hs ih =>
      obtain ⟨front, rest, hb, hd, he⟩ := ih
      refine ⟨.terminal i :: front, rest, ?_, (Grammar.Derives.refl [_]).append hd,
        fun e h => he e (map_eq_error h)⟩
      rw [slice_eq_cons tokens hs.le]
      exact hb.cons hla
  | @mismatch i p s hla =>
      refine ⟨[], .terminal i :: s, by rw [slice_self]; rfl, .refl _, fun e he => ?_⟩
      cases he
      exact ⟨_, s, rfl, .inl ⟨rfl, rfl⟩⟩
  | @expand i p m q n n' la r s children result hla hr hc hs ihc ihs =>
      -- the children are complete, so that nothing is left of the right-hand side
      obtain ⟨hforest, htokens⟩ := hc.forest ht
      obtain ⟨hmem, rfl⟩ := ht.mem_rules hla hr
      obtain ⟨front, rest, hb, hd, he⟩ := ihs
      refine ⟨(leavesOfAll children).map (·.1) ++ front, rest, ?_, ?_,
        fun e h => he e (map_eq_error h)⟩
      · rw [← slice_append tokens hc.le hs.le]
        exact (hforest.binds htokens).append hb
      · rw [List.append_assoc]
        exact ((Grammar.derives_rule hmem).trans hforest.derives).append hd
  | @inside i p q n la r s e hla hr hc ih =>
      obtain ⟨hmem, rfl⟩ := ht.mem_rules hla hr
      obtain ⟨front, rest, hb, hd, he⟩ := ih
      refine ⟨front, rest ++ s, hb, ?_, fun e h => ?_⟩
      · rw [← List.append_assoc]
        exact ((Grammar.derives_rule hmem).trans hd).append (.refl s)
      · obtain ⟨x, more, rfl, hx⟩ := he e h
        exact ⟨x, more ++ s, rfl, hx⟩
  | @refuse i p s hr =>
      refine ⟨[], .nonterminal i :: s, by rw [slice_self]; rfl, .refl _, fun e he => ?_⟩
      cases he
      exact ⟨_, s, rfl, .inr ⟨i, rfl, rfl, rfl⟩⟩

theorem Runs.exists_prefix (h : Runs t tokens s p q result n) (ht : t.IsSound) :
    ∃ front rest, t.grammar.Binds front (slice tokens p q) ∧
      t.grammar.Derives s (front ++ rest) := by
  obtain ⟨front, rest, hb, hd, -⟩ := h.exists_front ht
  exact ⟨front, rest, hb, hd⟩

-- How a parse ends is decided by the tokens up to the one at which it ends.
theorem conclude_congr (heq : tokens' q = tokens q) :
    conclude t tokens' q result = conclude t tokens q result := by
  cases result with
  | error e => rfl
  | ok trees =>
      have hla : lookahead t tokens' q = lookahead t tokens q := by rw [lookahead, heq]; rfl
      simp only [conclude, hla, heq]

-- An input of tokens that are not for the end of input, and a table without conflicts.
section Rejected

variable {w w' : List Token} {options : List Policy} {e : SyntaxError}
  (hb : Table.build t.grammar.analyse options = .ok t) (ht : t.IsSound)
  (hsmall : t.grammar.rules.length < 2 ^ 31) (hl : t.isLeftRecursive = false)
  (hc : t.conflicts = [])

include hb ht hsmall hl hc

-- Nothing that goes on in the same way up to the error is a sentence.
theorem Runs.not_recognises
    (h : Runs t (TokenList.pull w) [.nonterminal t.grammar.start] 0 q result n)
    (he : conclude t (TokenList.pull w) q result = .failed (.rejected e))
    (hw' : ∀ token ∈ w', token.type ≠ TokenType.endOfInput)
    (heq : ∀ i ≤ q, TokenList.pull w' i = TokenList.pull w i) : ¬t.grammar.Recognises w' := by
  intro hrec
  obtain ⟨tree, pulls, hparse⟩ :=
    (accepts_iff_recognises hw' hb ht hsmall hl hc).mpr hrec
  have hrun : Runs t (TokenList.pull w') [.nonterminal t.grammar.start] 0 q result n :=
    h.congr fun i _ hi => heq i hi
  rw [hrun.parse_eq ht hl (delivers_list w') (type_pull_of_length_le hw'),
    conclude_congr (heq q (Nat.le_refl q)), he] at hparse
  cases hparse

-- No sentence begins with what has been matched and the token that is not.
theorem Runs.not_isSentence (hg : t.grammar.HasSymbols)
    (h : Runs t (TokenList.pull w) [.nonterminal t.grammar.start] 0 q result n)
    (he : conclude t (TokenList.pull w) q result = .failed (.rejected e))
    (hw : ∀ token ∈ w, token.type ≠ TokenType.endOfInput) (hq : q < w.length) {rest : List Symbol}
    (hs : t.grammar.Binds s (w.take (q + 1))) : ¬t.grammar.IsSentence (s ++ rest) := by
  rintro ⟨hterminals, hd⟩
  have hdeclared := ht.wellFormed.declares_of_mem hd
    (by simpa using ht.wellFormed.declares_start)
  obtain ⟨more, hmore, hrest⟩ := hg.exists_tokens
    (Grammar.isTerminalString_append.mp hterminals).2
    (fun x hx => hdeclared x (List.mem_append_right s hx))
  have hw' : ∀ token ∈ w.take (q + 1) ++ more, token.type ≠ TokenType.endOfInput := by
    intro token hmem
    rcases List.mem_append.mp hmem with hmem | hmem
    · exact hw token (List.mem_of_mem_take hmem)
    · exact hmore token hmem
  refine h.not_recognises hb ht hsmall hl hc he hw' (fun i hi => ?_) ⟨_, hs.append hrest, hd⟩
  have hi' : i < (w.take (q + 1)).length := by
    rw [List.length_take]
    omega
  have hwhole : ∀ token ∈ w.take (q + 1) ++ w.drop (q + 1), token.type ≠ TokenType.endOfInput := by
    rw [List.take_append_drop]
    exact hw
  rw [TokenList.pull_append_of_lt hw' hi', ← TokenList.pull_append_of_lt hwhole hi',
    List.take_append_drop]

end Rejected

-- A syntax error is found at the first token that no sentence can go on with. What stands before
-- it has been matched and begins a sentential form, and a sentence if all non-terminals are
-- productive.
theorem rejected_at_prefix {g : Grammar} (hg : g.IsFirstBuild) (hsmall : g.rules.length < 2 ^ 31)
    {options : List Policy} (hb : Table.build g.analyse options = .ok t)
    (hstrict : Policy.ofOptions options = .strict) (herror : t.error? = none) {w : List Token}
    (hw : ∀ token ∈ w, token.type ≠ TokenType.endOfInput) {error : SyntaxError} {pulls : Nat}
    (hparse : parse (some t) (some (.ofSource (TokenList.source w))) w.length =
      some ⟨.failed (.rejected error), pulls⟩) {k : Nat}
    (hk : matched t (.ofSource (TokenList.source w)) w.length = k) :
    k ≤ w.length ∧
      error.token = some (w[k]?.getD (TokenList.last w)) ∧
      error.position = (w[k]?.getD (TokenList.last w)).span.start ∧
      (∃ s rest, g.Binds s (w.take k) ∧ g.Derives [.nonterminal g.start] (s ++ rest)) ∧
      ((∀ i < g.nonterminals.length, g.IsProductive (.nonterminal i)) →
        ∃ s rest, g.Binds s (w.take k) ∧ g.IsSentence (s ++ rest)) ∧
      (k < w.length → ∀ s rest, g.Binds s (w.take (k + 1)) → ¬g.IsSentence (s ++ rest)) ∧
      (k = w.length → ¬g.Recognises w) := by
  have hpolicy := (Table.holds_of_build hb hg.wellFormed hsmall).2.1.trans hstrict
  obtain ⟨hl, hc⟩ := Table.conflicts_of_error?_eq_none herror hpolicy
  obtain ⟨rfl, ht⟩ := Table.isSound_of_build hb hg.wellFormed hsmall
  have hin := delivers_list w
  have hend := type_pull_of_length_le hw
  obtain ⟨q, result, n, h⟩ := exists_start_run ht hl hend
  have hpulls := pulls_eq_matched hin hl hparse
  rw [h.parse_eq ht hl hin hend] at hparse
  injection hparse with hreport
  injection hreport with hconclude hq
  obtain rfl : q = k := by
    simp only [hk] at hpulls
    omega
  have hle : q ≤ w.length := by simpa using h.le_end hend
  obtain ⟨htoken, hposition⟩ := h.rejected_at hconclude
  rw [TokenList.pull, TokenList.body_eq_self hw] at htoken hposition
  obtain ⟨s, rest, hs, hd⟩ := h.exists_prefix ht
  rw [TokenList.slice_pull_take hw hle] at hs
  have hterminals : Grammar.IsTerminalString s :=
    hs.isTerminalString fun token hmem => hw token (List.mem_of_mem_take hmem)
  refine ⟨hle, htoken, hposition, ⟨s, rest, hs, hd⟩, ?_, ?_, ?_⟩
  · intro hproductive
    obtain ⟨rest, hsentence⟩ := ht.wellFormed.exists_sentence hproductive hterminals hd
    exact ⟨s, rest, hs, hsentence⟩
  · intro hlt s rest hs
    exact h.not_isSentence hb ht hsmall hl hc hg.hasSymbols hconclude hw hlt hs
  · intro _
    exact h.not_recognises hb ht hsmall hl hc hconclude hw fun _ _ => rfl

end Parser

-- Every non-terminal for arithmetic expressions leads to terminals.
theorem Expression.isProductive :
    ∀ i < Expression.grammar.nonterminals.length,
      Expression.grammar.IsProductive (.nonterminal i) := by
  have hrule : ∀ r ∈ Expression.grammar.rules,
      (∀ x ∈ r.rhs, Expression.grammar.IsProductive x) →
        Expression.grammar.IsProductive (.nonterminal r.lhs) :=
    fun r hr h => .of_rule hr h
  have hterminal := Grammar.isProductive_terminal Expression.grammar
  have hsums := hrule ⟨2, 1, []⟩ (by decide) (by simp)
  have hproducts := hrule ⟨5, 3, []⟩ (by decide) (by simp)
  have hfactor := hrule ⟨6, 4, [.terminal 0]⟩ (by decide) (by simp [hterminal])
  have hterm := hrule ⟨3, 2, [.nonterminal 4, .nonterminal 3]⟩ (by decide)
    (by simp [hfactor, hproducts])
  have hexpr := hrule ⟨0, 0, [.nonterminal 2, .nonterminal 1]⟩ (by decide)
    (by simp [hterm, hsums])
  have hsum := hrule ⟨8, 5, [.terminal 1]⟩ (by decide) (by simp [hterminal])
  have hproduct := hrule ⟨10, 6, [.terminal 3]⟩ (by decide) (by simp [hterminal])
  intro i hi
  match i, hi with
  | 0, _ => exact hexpr
  | 1, _ => exact hsums
  | 2, _ => exact hterm
  | 3, _ => exact hproducts
  | 4, _ => exact hfactor
  | 5, _ => exact hsum
  | 6, _ => exact hproduct
  | i + 7, hi => exact absurd hi (by simp [Expression.grammar, Expression.nonterminals])

-- The syntax error with which a parse has ended.
def Outcome.rejection? : Outcome → Option SyntaxError
  | .failed (.rejected e) => some e
  | _ => none

namespace Parser

theorem exists_rejected_of_any {report? : Option Report} {p : SyntaxError → Bool}
    (h : report?.any (fun report => report.outcome.rejection?.any p) = true) :
    ∃ error pulls, report? = some ⟨.failed (.rejected error), pulls⟩ ∧ p error = true := by
  obtain ⟨⟨outcome, pulls⟩, hreport, h⟩ := (Option.any_eq_true _ _).mp h
  obtain ⟨error, herror, hp⟩ := (Option.any_eq_true _ _).mp h
  rcases outcome with tree | failure | breakdown
  · cases herror
  · cases failure with
    | rejected error' =>
        cases herror
        exact ⟨error, pulls, hreport, hp⟩
    | _ => cases herror
  · cases herror

-- A sum without its second summand goes on with a sign of another kind.
def brokenTokens : List Token := TokenList.ofTypes [TokenType.integer, 0x2B, 0x2A]

theorem exists_brokenReport :
    ∃ t error pulls, Table.build Expression.grammar.analyse [] = .ok t ∧ t.error? = none ∧
      parse (some t) (some (.ofSource (TokenList.source brokenTokens))) brokenTokens.length =
        some ⟨.failed (.rejected error), pulls⟩ ∧
      matched t (.ofSource (TokenList.source brokenTokens)) brokenTokens.length = 2 := by
  obtain ⟨t, hb, h⟩ := exists_ok_of_any (x := Table.build Expression.grammar.analyse [])
    (p := fun t => (t.error? = none ∧
        matched t (.ofSource (TokenList.source brokenTokens)) brokenTokens.length = 2) ∧
      (parse (some t) (some (.ofSource (TokenList.source brokenTokens))) brokenTokens.length).any
        fun report => report.outcome.rejection?.any fun _ => true) (by decide +kernel)
  obtain ⟨⟨he, hmatched⟩, h⟩ := of_decide_eq_true h
  obtain ⟨error, pulls, hp, -⟩ := exists_rejected_of_any h
  exact ⟨t, error, pulls, hb, he, hp, hmatched⟩

-- A number and a plus sign begin a sentence, but none in which a times sign comes next.
theorem rejected_at_prefix_broken :
    (∃ rest, Expression.grammar.IsSentence ([.terminal 0, .terminal 1] ++ rest)) ∧
      ∀ rest, ¬Expression.grammar.IsSentence ([.terminal 0, .terminal 1, .terminal 3] ++ rest) := by
  obtain ⟨t, error, pulls, hb, he, hparse, hmatched⟩ := exists_brokenReport
  obtain ⟨-, -, -, -, hbegins, hstops, -⟩ := rejected_at_prefix Expression.isFirstBuild (by decide)
    hb rfl he (by decide) hparse hmatched
  have hfront : Expression.grammar.Binds [.terminal 0, .terminal 1] (brokenTokens.take 2) := by
    decide +kernel
  obtain ⟨s, rest, hs, hsentence⟩ := hbegins Expression.isProductive
  obtain rfl := hs.unique hfront
  exact ⟨⟨rest, hsentence⟩, fun rest => hstops (by decide) _ rest (by decide +kernel)⟩

end Parser

end Lookahead
