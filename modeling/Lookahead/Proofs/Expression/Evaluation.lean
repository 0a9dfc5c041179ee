import Lookahead.Expression.Evaluation
import Lookahead.Proofs.Parser.Engine
import Lookahead.Proofs.Tree.Walk

/-!
What expressions evaluate to. The operators of a sum are applied from the left to its terms, those
of a product to its factors, although the trees of their tails lean to the right.
-/

namespace Lookahead

namespace Tree

variable {β : Type} (l : Listener β) (dir : Direction) (level : Nat)

theorem walkFrom_branch_value {r : Option Rule} {children : List Tree}
    (henter : l.enter (.branch r children) level = true) :
    (walkFrom l dir level (.branch r children)).2 =
      l.exit (.branch r children) level
        (children.map fun t => (walkFrom l dir (level + 1) t).2) := by
  rw [walkFrom, if_pos henter, ← walkAll_values]
  rfl

end Tree

namespace Expression

open Evaluation Lookahead.Tree

variable {α : Type}

def operators : List Text := [text "+", text "-", text "*", text "/"]

def operation? (arith : Arithmetic α) (op : Text) : Option (α → α → α) :=
  if op = text "+" then some arith.add
  else if op = text "-" then some arith.sub
  else if op = text "*" then some arith.mul
  else if op = text "/" then some arith.div
  else none

-- Applies some operations with their right operands, one after the other.
def applyAll (steps : List ((α → α → α) × α)) (first : α) : α :=
  steps.foldl (fun left step => step.1 left step.2) first

mutual

-- How a tree is meant to be read: a number, a first operand with a tail of further ones, or an
-- expression in parentheses.
def reading? (arith : Arithmetic α) : Tree → Option α
  | .branch _ [.leaf _ (some token)] =>
    match token.value with
    | some (.integer n) => some (arith.ofInteger n)
    | _ => none
  | .branch _ [operand, tail] =>
    match reading? arith operand, steps? arith tail with
    | some first, some steps => some (applyAll steps first)
    | _, _ => none
  | .branch _ [_, inner, _] => reading? arith inner
  | _ => none

-- The operators of a tail from left to right, each with the operand behind it.
def steps? (arith : Arithmetic α) : Tree → Option (List ((α → α → α) × α))
  | .branch _ [] => some []
  | .branch _ [.branch _ [.leaf (some op) _], operand, tail] =>
    match operation? arith (grammar.nameOf op), reading? arith operand, steps? arith tail with
    | some f, some right, some steps => some ((f, right) :: steps)
    | _, _, _ => none
  | _ => none

end

-- Whether a token, if it is one for an operator, has the name of the operator as its lexeme.
def NamesOperator (token : Token) : Prop :=
  ∀ op ∈ grammar.terminal? token.type, grammar.nameOf op ∈ operators →
    token.lexeme = grammar.nameOf op

instance : DecidablePred NamesOperator := fun token =>
  inferInstanceAs (Decidable (∀ op ∈ grammar.terminal? token.type,
    grammar.nameOf op ∈ operators → token.lexeme = grammar.nameOf op))

-- Whether a token is one for a number, but does not tell which.
def lacksValue (token : Token) : Bool :=
  token.type = TokenType.integer && !(token.value matches some (.integer _))

-- The value of a node within a tree.
def found (arith : Arithmetic α) (level : Nat) (tree : Tree) :
    Option (Except Fault (Operand α)) :=
  (tree.walkFrom (listener grammar arith) .leftToRight level).2

structure IsOperand (arith : Arithmetic α) (tree : Tree) (x : α) : Prop where
  reading : reading? arith tree = some x
  found : ∀ level, found arith level tree = some (.ok (.number x))

structure IsTail (arith : Arithmetic α) (tree : Tree) (steps : List ((α → α → α) × α))
    (f : α → Except Fault α) : Prop where
  reading : steps? arith tree = some steps
  found : ∀ level, found arith level tree = some (.ok (.tail f))
  apply_eq : ∀ left, f left = .ok (applyAll steps left)

structure IsOperator (arith : Arithmetic α) (tree : Tree) (op : Symbol) (f : α → α → α) :
    Prop where
  shape : ∃ r token, tree = .branch r [.leaf (some op) token]
  operation : operation? arith (grammar.nameOf op) = some f
  found : ∀ level, found arith level tree = some (.ok (.operator (grammar.nameOf op)))

-- A tree for a symbol has the value that goes with its reading.
def Evaluates (arith : Arithmetic α) (s : Symbol) (tree : Tree) : Prop :=
  tree.symbol? = some s ∧
    match s with
    | .terminal i => ∃ token, tree = .leaf (some (.terminal i)) (some token) ∧
        grammar.terminal? token.type = some (.terminal i) ∧ NamesOperator token ∧
        lacksValue token = false
    | .nonterminal 0 | .nonterminal 2 | .nonterminal 4 => ∃ x, IsOperand arith tree x
    | .nonterminal 1 | .nonterminal 3 => ∃ steps f, IsTail arith tree steps f
    | .nonterminal _ => ∃ op f, IsOperator arith tree op f
    | .endOfInput => False

section Values

variable {arith : Arithmetic α} {r : Rule} {operand tail operator inner : Tree}
  {children : List Tree} {x right : α} {f : α → Except Fault α} {g : α → α → α}
  {steps : List ((α → α → α) × α)} {op : Symbol} {name : Text} {token : Token}

theorem apply_of_operation? (h : operation? arith name = some g) (left right : α) :
    apply arith name left right = .ok (g left right) := by
  unfold operation? at h
  unfold apply
  split_ifs at h ⊢ <;> cases h <;> rfl

theorem gather_ok (values : List (Operand α)) :
    gather (values.map fun v => some (.ok v)) = .ok (values.map some) := by
  induction values with
  | nil => rfl
  | cons v values ih =>
      rw [List.map_cons, gather, ih]
      rfl

theorem found_branch (level : Nat) (r : Option Rule) (children : List Tree) :
    found arith level (.branch r children) =
      outcome ((gather (children.map (found arith (level + 1)))).bind
        (combine grammar arith (.branch r children))) :=
  walkFrom_branch_value _ _ level rfl

theorem found_of_values {r : Option Rule} {value : Operand α} (values : List (Operand α))
    (hvalues : ∀ level, children.map (found arith level) = values.map fun v => some (.ok v))
    (hcombine : combine grammar arith (.branch r children) (values.map some) = .ok (some value))
    (level : Nat) : found arith level (.branch r children) = some (.ok value) := by
  have hgather : (gather (children.map (found arith (level + 1)))).bind
      (combine grammar arith (.branch r children)) = .ok (some value) := by
    rw [hvalues, gather_ok]
    exact hcombine
  rw [found_branch, hgather]
  rfl

theorem combine_number (hr : r.lhs = 4) (token : Token) (values : List (Option (Operand α))) :
    combine grammar arith (.branch (some r) [.leaf (some (.terminal 0)) (some token)]) values =
      (numberOf arith (.leaf (some (.terminal 0)) (some token))).map some := by
  obtain ⟨serial, lhs, rhs⟩ := r
  subst hr
  rfl

theorem isOperand_chain (hr : r.lhs = 0 ∨ r.lhs = 2) (ho : IsOperand arith operand x)
    (ht : IsTail arith tail steps f) :
    IsOperand arith (.branch (some r) [operand, tail]) (applyAll steps x) where
  reading := by rw [reading?, ho.reading, ht.reading]
  found := by
    apply found_of_values [.number x, .tail f]
    · intro level
      simp only [List.map_cons, List.map_nil, ho.found, ht.found]
    · have hcombine : combine grammar arith (.branch (some r) [operand, tail])
          [some (.number x), some (.tail f)] = (f x).map fun y => some (.number y) := by
        obtain ⟨serial, lhs, rhs⟩ := r
        rcases hr with rfl | rfl <;> rfl
      rw [List.map_cons, List.map_cons, List.map_nil, hcombine, ht.apply_eq]
      rfl

theorem isTail_nil (hr : r.lhs = 1 ∨ r.lhs = 3) :
    IsTail arith (.branch (some r) []) [] .ok where
  reading := by rw [steps?]
  found := by
    apply found_of_values []
    · intro level
      rfl
    · obtain ⟨serial, lhs, rhs⟩ := r
      rcases hr with rfl | rfl <;> rfl
  apply_eq := fun _ => rfl

-- A tail applies its own operator first and leaves the result to the rest.
theorem isTail_cons (hr : r.lhs = 1 ∨ r.lhs = 3) (hop : IsOperator arith operator op g)
    (ho : IsOperand arith operand right) (ht : IsTail arith tail steps f) :
    IsTail arith (.branch (some r) [operator, operand, tail]) ((g, right) :: steps)
      fun left => (apply arith (grammar.nameOf op) left right).bind f where
  reading := by
    obtain ⟨r', token, rfl⟩ := hop.shape
    rw [steps?, hop.operation, ho.reading, ht.reading]
  found := by
    apply found_of_values [.operator (grammar.nameOf op), .number right, .tail f]
    · intro level
      simp only [List.map_cons, List.map_nil, hop.found, ho.found, ht.found]
    · obtain ⟨serial, lhs, rhs⟩ := r
      rcases hr with rfl | rfl <;> rfl
  apply_eq := by
    intro left
    rw [apply_of_operation? hop.operation]
    exact ht.apply_eq (g left right)

theorem isOperator_leaf {i : Nat} (hr : r.lhs = 5 ∨ r.lhs = 6)
    (hname : token.lexeme = grammar.nameOf (.terminal i))
    (hg : operation? arith (grammar.nameOf (.terminal i)) = some g) :
    IsOperator arith (.branch (some r) [.leaf (some (.terminal i)) (some token)]) (.terminal i)
      g where
  shape := ⟨_, _, rfl⟩
  operation := hg
  found := by
    apply found_of_values [.token token]
    · intro level
      rfl
    · rw [← hname]
      obtain ⟨serial, lhs, rhs⟩ := r
      rcases hr with rfl | rfl <;> rfl

theorem isOperand_number {n : Int64} (hr : r.lhs = 4) (hvalue : token.value = some (.integer n)) :
    IsOperand arith (.branch (some r) [.leaf (some (.terminal 0)) (some token)])
      (arith.ofInteger n) where
  reading := by rw [reading?, hvalue]
  found := by
    apply found_of_values [.token token]
    · intro level
      rfl
    · rw [combine_number hr, numberOf, hvalue]
      rfl

-- Parentheses have the value of what is between them.
theorem isOperand_group (hr : r.lhs = 4) {first last : Token}
    (hinner : inner.symbol? = some (.nonterminal 0)) (ho : IsOperand arith inner x) :
    IsOperand arith (.branch (some r) [.leaf (some (.terminal 5)) (some first), inner,
      .leaf (some (.terminal 6)) (some last)]) x where
  reading := by rw [reading?, ho.reading]
  found := by
    apply found_of_values [.token first, .number x, .token last]
    · intro level
      simp only [List.map_cons, List.map_nil, ho.found]
      rfl
    · obtain ⟨serial, lhs, rhs⟩ := r
      subst hr
      -- No child of the node is named like a number.
      cases inner with
      | missing => cases hinner
      | leaf s token =>
          cases hinner
          rfl
      | branch r' below =>
          obtain ⟨⟨serial', lhs', rhs'⟩, rfl, hlhs⟩ := Option.map_eq_some_iff.mp hinner
          cases hlhs
          rfl

theorem operation?_isSome (h : name ∈ operators) : ∃ g, operation? arith name = some g := by
  simp only [operators, List.mem_cons, List.not_mem_nil, or_false] at h
  rcases h with rfl | rfl | rfl | rfl <;> exact ⟨_, rfl⟩

theorem evaluates_operator (hr : r.lhs = 5 ∨ r.lhs = 6) {i : Nat}
    (hop : grammar.nameOf (.terminal i) ∈ operators) {tree : Tree}
    (h : Evaluates arith (.terminal i) tree) :
    ∃ op g, IsOperator arith (.branch (some r) [tree]) op g := by
  obtain ⟨-, token, rfl, hb, hnames, -⟩ := h
  obtain ⟨g, hg⟩ : ∃ g, operation? arith (grammar.nameOf (.terminal i)) = some g :=
    operation?_isSome hop
  exact ⟨.terminal i, g, isOperator_leaf hr (hnames _ hb hop) hg⟩

theorem lacksValue_eq_false {i : Nat} (hb : grammar.terminal? token.type = some (.terminal i))
    (hi : i ≠ 0) : lacksValue token = false := by
  by_contra h
  have htype : token.type = TokenType.integer :=
    of_decide_eq_true (Bool.and_eq_true_iff.mp (Bool.of_not_eq_false h)).1
  have hnumber : grammar.terminal? TokenType.integer = some (.terminal 0) := rfl
  rw [htype, hnumber] at hb
  cases hb
  exact hi rfl

theorem exists_value (hb : grammar.terminal? token.type = some (.terminal 0))
    (hvalue : lacksValue token = false) : ∃ n, token.value = some (.integer n) := by
  have htype : token.type = TokenType.integer := (Grammar.typeOf_of_terminal? hb).symm
  rw [lacksValue, htype] at hvalue
  match h : token.value, hvalue with
  | some (.integer n), _ => exact ⟨n, rfl⟩

-- One case for each rule of the grammar.
theorem evaluates_branch (hr : r ∈ grammar.rules)
    (hc : List.Forall₂ (Evaluates arith) r.rhs children) :
    Evaluates arith (.nonterminal r.lhs) (.branch (some r) children) := by
  refine ⟨rfl, ?_⟩
  simp only [grammar, rules, List.mem_cons, List.not_mem_nil, or_false] at hr
  rcases hr with rfl | rfl | rfl | rfl | rfl | rfl | rfl | rfl | rfl | rfl | rfl | rfl
  · rcases hc with _ | ⟨⟨-, x, ho⟩, _ | ⟨⟨-, steps, f, ht⟩, _ | _⟩⟩
    exact ⟨_, isOperand_chain (.inl rfl) ho ht⟩
  · rcases hc with _ | ⟨⟨-, op, g, hop⟩, _ | ⟨⟨-, x, ho⟩, _ | ⟨⟨-, steps, f, ht⟩, _ | _⟩⟩⟩
    exact ⟨_, _, isTail_cons (.inl rfl) hop ho ht⟩
  · rcases hc with _ | _
    exact ⟨_, _, isTail_nil (.inl rfl)⟩
  · rcases hc with _ | ⟨⟨-, x, ho⟩, _ | ⟨⟨-, steps, f, ht⟩, _ | _⟩⟩
    exact ⟨_, isOperand_chain (.inr rfl) ho ht⟩
  · rcases hc with _ | ⟨⟨-, op, g, hop⟩, _ | ⟨⟨-, x, ho⟩, _ | ⟨⟨-, steps, f, ht⟩, _ | _⟩⟩⟩
    exact ⟨_, _, isTail_cons (.inr rfl) hop ho ht⟩
  · rcases hc with _ | _
    exact ⟨_, _, isTail_nil (.inr rfl)⟩
  · rcases hc with _ | ⟨⟨-, token, rfl, hb, -, hvalue⟩, _ | _⟩
    obtain ⟨n, hn⟩ := exists_value hb hvalue
    exact ⟨_, isOperand_number rfl hn⟩
  · rcases hc with _ | ⟨⟨-, first, rfl, -⟩, _ | ⟨⟨hinner, x, ho⟩, _ | ⟨⟨-, last, rfl, -⟩, _ | _⟩⟩⟩
    exact ⟨x, isOperand_group rfl hinner ho⟩
  · rcases hc with _ | ⟨h, _ | _⟩
    exact evaluates_operator (.inl rfl) (by decide) h
  · rcases hc with _ | ⟨h, _ | _⟩
    exact evaluates_operator (.inl rfl) (by decide) h
  · rcases hc with _ | ⟨h, _ | _⟩
    exact evaluates_operator (.inr rfl) (by decide) h
  · rcases hc with _ | ⟨h, _ | _⟩
    exact evaluates_operator (.inr rfl) (by decide) h

end Values

section Forests

variable {arith : Arithmetic α} {s : List Symbol} {trees : List Tree}

theorem evaluates_of_forest (h : grammar.Forest s trees)
    (hnames : ∀ token, some token ∈ tokensOfAll trees → NamesOperator token)
    (hvalues : ∀ token, some token ∈ tokensOfAll trees → lacksValue token = false) :
    List.Forall₂ (Evaluates arith) s trees := by
  induction h with
  | nil => exact .nil
  | @leaf i token s trees hb _ ih =>
      simp only [tokensOfAll_leaf, List.mem_cons] at hnames hvalues
      have htoken : Evaluates arith (.terminal i) (.leaf (some (.terminal i)) (some token)) :=
        ⟨rfl, token, rfl, hb, hnames token (.inl rfl), hvalues token (.inl rfl)⟩
      exact .cons htoken
        (ih (fun token h => hnames token (.inr h)) fun token h => hvalues token (.inr h))
  | @branch r children s trees hr _ _ ihc ihs =>
      simp only [tokensOfAll_branch, List.mem_append] at hnames hvalues
      have hchildren := ihc (fun token h => hnames token (.inl h)) fun token h =>
        hvalues token (.inl h)
      exact .cons (evaluates_branch hr hchildren)
        (ihs (fun token h => hnames token (.inr h)) fun token h => hvalues token (.inr h))

theorem exists_found {x : Symbol} {tree : Tree} (h : Evaluates arith x tree) (level : Nat) :
    ∃ value, found arith level tree = some (.ok value) := by
  match x, h with
  | .terminal i, ⟨_, token, htree, _⟩ => exact ⟨.token token, by rw [htree]; rfl⟩
  | .nonterminal 0, ⟨_, _, h⟩ | .nonterminal 2, ⟨_, _, h⟩ | .nonterminal 4, ⟨_, _, h⟩ =>
      exact ⟨_, h.found level⟩
  | .nonterminal 1, ⟨_, _, _, h⟩ | .nonterminal 3, ⟨_, _, _, h⟩ => exact ⟨_, h.found level⟩
  | .nonterminal (i + 5), ⟨_, _, _, h⟩ => exact ⟨_, h.found level⟩

theorem found_number_error {r : Rule} {token : Token} (hr : r.lhs = 4)
    (hvalue : lacksValue token = true) (level : Nat) :
    found arith level (.branch (some r) [.leaf (some (.terminal 0)) (some token)]) =
      some (.error (.noValue token.lexeme)) := by
  have hnumber : numberOf arith (.leaf (some (.terminal 0)) (some token)) =
      .error (.noValue token.lexeme) := by
    have hv := (Bool.and_eq_true_iff.mp hvalue).2
    rw [numberOf]
    split
    · rename_i n hn
      rw [hn] at hv
      cases hv
    · rfl
  have hcombine : combine grammar arith (.branch (some r) [.leaf (some (.terminal 0)) (some token)])
      [some (.token token)] = .error (.noValue token.lexeme) := by
    rw [combine_number hr, hnumber]
    rfl
  rw [found_branch]
  exact congrArg outcome hcombine

theorem terminal_notMem_rhs {r : Rule} (hr : r ∈ grammar.rules) :
    .terminal 0 ∉ r.rhs ∨ r.lhs = 4 ∧ r.rhs = [.terminal 0] := by
  have hall : ∀ r ∈ grammar.rules, .terminal 0 ∉ r.rhs ∨ r.lhs = 4 ∧ r.rhs = [.terminal 0] := by
    decide
  exact hall r hr

-- A branch passes on what goes wrong below it, unless it is the branch for the number itself.
theorem found_branch_error {r : Rule} {children : List Tree} {token : Token}
    (hr : r ∈ grammar.rules) (hchildren : grammar.Forest r.rhs children)
    (hinside : (tokensOfAll children).find? (·.any lacksValue) = some (some token)) (level : Nat)
    (hgather : .terminal 0 ∉ r.rhs →
      gather (children.map (found arith (level + 1))) = .error (.noValue token.lexeme)) :
    found arith level (.branch (some r) children) = some (.error (.noValue token.lexeme)) := by
  rcases terminal_notMem_rhs hr with hrhs | ⟨hlhs, hrhs⟩
  · rw [found_branch, hgather hrhs]
    rfl
  · rw [hrhs] at hchildren
    cases hchildren with
    | @leaf _ leaf _ _ _ hnil =>
        cases hnil
        have hvalue : (some token).any lacksValue = true := List.find?_some hinside
        have hmem := List.mem_of_find?_eq_some hinside
        rw [tokensOfAll_leaf] at hmem
        obtain rfl : token = leaf := by simpa [tokensOfAll, leavesOfAll] using hmem
        exact found_number_error hlhs hvalue level

-- The first number without a value makes evaluation fail: everything to its left has a value.
theorem gather_eq_error (h : grammar.Forest s trees)
    (hnames : ∀ token, some token ∈ tokensOfAll trees → NamesOperator token)
    (hs : .terminal 0 ∉ s) {token : Token}
    (hfirst : (tokensOfAll trees).find? (·.any lacksValue) = some (some token)) (level : Nat) :
    gather (trees.map (found arith level)) = .error (.noValue token.lexeme) := by
  induction h generalizing level with
  | nil => cases hfirst
  | @leaf i t s trees hb _ ih =>
      simp only [tokensOfAll_leaf, List.mem_cons] at hnames
      have hvalue : lacksValue t = false := by
        apply lacksValue_eq_false hb
        rintro rfl
        exact hs List.mem_cons_self
      rw [tokensOfAll_leaf, List.find?_cons_of_neg (by simp [hvalue])] at hfirst
      have hrest := ih (fun token h => hnames token (.inr h)) (List.not_mem_of_not_mem_cons hs)
        hfirst level
      show (gather (trees.map (found arith level))).map _ = _
      rw [hrest]
      rfl
  | @branch r children s trees hr hchildren _ ihc ihs =>
      simp only [tokensOfAll_branch, List.mem_append] at hnames
      rw [tokensOfAll_branch, List.find?_append] at hfirst
      cases hinside : (tokensOfAll children).find? (·.any lacksValue) with
      | none =>
          have hvalues : ∀ token, some token ∈ tokensOfAll children → lacksValue token = false := by
            intro token h
            simpa using List.find?_eq_none.mp hinside _ h
          have hbranch : Evaluates arith (.nonterminal r.lhs) (.branch (some r) children) :=
            evaluates_branch hr
              (evaluates_of_forest hchildren (fun token h => hnames token (.inl h)) hvalues)
          obtain ⟨value, hvalue⟩ := exists_found hbranch level
          rw [hinside, Option.none_or] at hfirst
          have hrest := ihs (fun token h => hnames token (.inr h))
            (List.not_mem_of_not_mem_cons hs) hfirst level
          rw [List.map_cons, hvalue, gather, hrest]
          rfl
      | some first =>
          rw [hinside, Option.some_or] at hfirst
          obtain rfl := Option.some.inj hfirst
          have hbranch : found arith level (.branch (some r) children) =
              some (.error (.noValue token.lexeme)) :=
            found_branch_error hr hchildren hinside level fun hrhs =>
              ihc (fun token h => hnames token (.inl h)) hrhs hinside (level + 1)
          rw [List.map_cons, hbranch, gather]

theorem found_of_gather {level : Nat} {tree : Tree} {fault : Fault}
    (h : gather ([tree].map (found arith level)) = .error fault) :
    found arith level tree = some (.error fault) := by
  rw [List.map_cons, List.map_nil] at h
  rcases hfound : found arith level tree with _ | _ | value
  · rw [hfound] at h
    cases h
  · rw [hfound] at h
    cases h
    rfl
  · rw [hfound] at h
    cases h

theorem evaluate_eq (arith : Arithmetic α) (tree : Tree) :
    tree.evaluate grammar arith =
      match found arith 0 tree with
      | some (.ok (.number x)) => .ok x
      | some (.error fault) => .error (.fault fault ((tree.render? grammar).getD []))
      | _ => .error (.notANumber ((tree.render? grammar).getD [])) := rfl

end Forests

-- Evaluation of a parsed list of tokens whose operators are called by their names. With a value
-- for every number, the value of the expression is the one it is read to have; otherwise the
-- first number without a value is blamed.
theorem evaluate_parsed (arith : Arithmetic α) {t : Table} (hb : table = .ok t) {w : List Token}
    {tree : Tree} {pulls : Nat}
    (hparse : Parser.parse (some t) (some (.ofSource (TokenList.source w))) w.length =
      some ⟨.accepted tree, pulls⟩)
    (hnames : ∀ token ∈ TokenList.body w, NamesOperator token) :
    ((∀ token ∈ TokenList.body w, lacksValue token = false) →
      ∃ x, reading? arith tree = some x ∧ tree.evaluate grammar arith = .ok x) ∧
    ((∃ token ∈ TokenList.body w, lacksValue token = true) →
      ∃ token ∈ (TokenList.body w).find? lacksValue, tree.evaluate grammar arith =
        .error (.fault (.noValue token.lexeme) ((tree.render? grammar).getD []))) := by
  have hl : t.isLeftRecursive = false := by
    obtain ⟨t', hb', hl, -⟩ := Table.exists_expressionTable
    rw [table, hb'] at hb
    exact Except.ok.inj hb ▸ hl
  obtain ⟨hgrammar, ht⟩ := Table.isSound_of_build hb isFirstBuild.wellFormed (by decide)
  obtain ⟨hforest, htokens⟩ := Parser.derivationTree_of_accepted ht hl hparse
  rw [hgrammar] at hforest
  rw [← tokensOfAll_singleton] at htokens
  have hforest : grammar.Forest [.nonterminal 0] [tree] := hforest
  have hmem : ∀ token, some token ∈ tokensOfAll [tree] → token ∈ TokenList.body w := by
    intro token h
    rw [htokens] at h
    simpa using h
  have hnames : ∀ token, some token ∈ tokensOfAll [tree] → NamesOperator token :=
    fun token h => hnames token (hmem token h)
  constructor
  · intro hvalues
    have htree : List.Forall₂ (Evaluates arith) [.nonterminal 0] [tree] :=
      evaluates_of_forest hforest hnames fun token h => hvalues token (hmem token h)
    rcases htree with _ | ⟨⟨-, x, h⟩, -⟩
    exact ⟨x, h.reading, by rw [evaluate_eq, h.found]⟩
  · rintro ⟨token, htoken, hvalue⟩
    obtain ⟨first, hfirst⟩ := Option.isSome_iff_exists.mp
      (List.find?_isSome.mpr ⟨token, htoken, hvalue⟩)
    refine ⟨first, hfirst, ?_⟩
    have hinside : (tokensOfAll [tree]).find? (·.any lacksValue) = some (some first) := by
      rw [htokens, List.find?_map]
      exact congrArg (Option.map some) hfirst
    have hgather : gather ([tree].map (found arith 0)) = .error (.noValue first.lexeme) :=
      gather_eq_error hforest hnames (by decide) hinside 0
    rw [evaluate_eq, found_of_gather hgather]

def integers : Arithmetic Int := ⟨Int64.toInt, (· + ·), (· - ·), (· * ·), (· / ·)⟩

-- The tokens of 8 - 3 - 2 * (7 - 6), with some value for the second number.
def difference (value : Option Value) : List Token :=
  [⟨TokenType.integer, text "8", .null, some (.integer 8)⟩, TokenList.ofType 1 0x2D,
   ⟨TokenType.integer, text "3", .null, value⟩, TokenList.ofType 3 0x2D,
   ⟨TokenType.integer, text "2", .null, some (.integer 2)⟩, TokenList.ofType 5 0x2A,
   TokenList.ofType 6 0x28, ⟨TokenType.integer, text "7", .null, some (.integer 7)⟩,
   TokenList.ofType 8 0x2D, ⟨TokenType.integer, text "6", .null, some (.integer 6)⟩,
   TokenList.ofType 10 0x29]

-- With a value for its second number the difference is read from the left, and nothing is read
-- without one.
theorem exists_differenceTree (value : Option Value) (hvalue : value ∈ [some (.integer 3), none]) :
    ∃ t tree pulls, table = .ok t ∧
      Parser.parse (some t) (some (.ofSource (TokenList.source (difference value))))
        (difference value).length = some ⟨.accepted tree, pulls⟩ ∧
      reading? integers tree = value.map fun _ => 3 := by
  obtain ⟨t, hb, h⟩ := exists_ok_of_any (x := table)
    (p := fun t => [some (.integer 3), none].all fun value =>
      (Parser.parse (some t) (some (.ofSource (TokenList.source (difference value))))
        (difference value).length).any fun report => match report.outcome with
          | .accepted tree => reading? integers tree = value.map fun _ => 3
          | _ => false) (by decide +kernel)
  obtain ⟨⟨outcome, pulls⟩, hparse, houtcome⟩ :=
    (Option.any_eq_true _ _).mp (List.all_eq_true.mp h value hvalue)
  cases outcome with
  | accepted tree => exact ⟨t, tree, pulls, hb, hparse, of_decide_eq_true houtcome⟩
  | _ => cases houtcome

theorem evaluate_parsed_difference :
    (∃ t tree pulls, table = .ok t ∧
      Parser.parse (some t)
        (some (.ofSource (TokenList.source (difference (some (.integer 3)))))) 11 =
          some ⟨.accepted tree, pulls⟩ ∧ tree.evaluate grammar integers = .ok 3) ∧
    ∃ t tree pulls, table = .ok t ∧
      Parser.parse (some t) (some (.ofSource (TokenList.source (difference none)))) 11 =
        some ⟨.accepted tree, pulls⟩ ∧ tree.evaluate grammar integers =
          .error (.fault (.noValue (text "3")) ((tree.render? grammar).getD [])) := by
  constructor
  · obtain ⟨t, tree, pulls, hb, hparse, hreading⟩ :=
      exists_differenceTree (some (.integer 3)) (by decide)
    obtain ⟨hvalue, -⟩ := evaluate_parsed integers hb hparse (by decide +kernel)
    obtain ⟨x, hx, hevaluate⟩ := hvalue (by decide +kernel)
    obtain rfl : x = 3 := Option.some.inj (hx.symm.trans hreading)
    exact ⟨t, tree, pulls, hb, hparse, hevaluate⟩
  · obtain ⟨t, tree, pulls, hb, hparse, -⟩ := exists_differenceTree none (by decide)
    obtain ⟨-, herror⟩ := evaluate_parsed integers hb hparse (by decide +kernel)
    obtain ⟨token, hfirst, hevaluate⟩ := herror (by decide +kernel)
    have hlexeme : ((TokenList.body (difference none)).find? lacksValue).map (·.lexeme) =
        some (text "3") := by
      decide +kernel
    rw [hfirst] at hlexeme
    exact ⟨t, tree, pulls, hb, hparse, Option.some.inj hlexeme ▸ hevaluate⟩

end Expression

end Lookahead
