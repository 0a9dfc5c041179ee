import Lookahead.Parser.Slots
import Lookahead.Proofs.Parser.Discipline

/-!
A parser that puts nodes into slots gives the same reports as the one that puts finished trees
together. Its open nodes lie one below the other. Each of them has finished trees in its first
slots, and nothing yet in the last ones, for which there are symbols on the stack. A node that is
closed is not written to any more.
-/

namespace Lookahead

namespace SlotParser

open Lookahead.Parser (Progress Choice choice Chosen chosen)

variable {nodes nodes' : List Node} {opened opened' : List Nat} {bound depth i : Nat}
  {trees trees' : List Tree} {slots slots' : List (Option Nat)}

-- Slots that have finished trees. Numbers of nodes ascend from a bound on, and none is open.
inductive Shows (nodes : List Node) (opened : List Nat) :
    (bound : Nat) → List Tree → List (Option Nat) → Prop
  | nil {bound : Nat} : Shows nodes opened bound [] []
  | leaf {bound i : Nat} {s : Symbol} {token : Token} {rest : List Tree}
      {slots : List (Option Nat)} (hle : bound ≤ i) (hclosed : i ∉ opened)
      (hnode : nodes[i]? = some (.leaf s token)) (hrest : Shows nodes opened bound rest slots) :
      Shows nodes opened bound (.leaf (some s) (some token) :: rest) (some i :: slots)
  | branch {bound i : Nat} {r : Option Rule} {children rest : List Tree}
      {inner slots : List (Option Nat)} (hle : bound ≤ i) (hclosed : i ∉ opened)
      (hnode : nodes[i]? = some (.branch r inner))
      (hchildren : Shows nodes opened (i + 1) children inner)
      (hrest : Shows nodes opened bound rest slots) :
      Shows nodes opened bound (.branch r children :: rest) (some i :: slots)

-- Nodes that are not open stay as they are, and are not opened.
def Keeps (nodes : List Node) (opened : List Nat) (nodes' : List Node) (opened' : List Nat) :
    Prop :=
  ∀ i node, i ∉ opened → nodes[i]? = some node → i ∉ opened' ∧ nodes'[i]? = some node

namespace Shows

theorem length_eq (h : Shows nodes opened bound trees slots) : trees.length = slots.length := by
  induction h with
  | nil => rfl
  | leaf _ _ _ _ ih => exact congrArg (· + 1) ih
  | branch _ _ _ _ _ _ ih => exact congrArg (· + 1) ih

theorem append (h : Shows nodes opened bound trees slots)
    (h' : Shows nodes opened bound trees' slots') :
    Shows nodes opened bound (trees ++ trees') (slots ++ slots') := by
  induction h with
  | nil => exact h'
  | leaf hle hclosed hnode _ ih => exact .leaf hle hclosed hnode (ih h')
  | branch hle hclosed hnode hchildren _ _ ih => exact .branch hle hclosed hnode hchildren (ih h')

theorem mono (hkeeps : Keeps nodes opened nodes' opened')
    (h : Shows nodes opened bound trees slots) : Shows nodes' opened' bound trees slots := by
  induction h with
  | nil => exact .nil
  | leaf hle hclosed hnode _ ih =>
      obtain ⟨hclosed, hnode⟩ := hkeeps _ _ hclosed hnode
      exact .leaf hle hclosed hnode ih
  | branch hle hclosed hnode _ _ ihchildren ih =>
      obtain ⟨hclosed, hnode⟩ := hkeeps _ _ hclosed hnode
      exact .branch hle hclosed hnode ihchildren ih

-- As numbers ascend, the depth that is left is enough for the nodes that are left.
theorem map_treeAt (h : Shows nodes opened bound trees slots)
    (hdepth : nodes.length ≤ depth + bound) :
    slots.map (treeAt nodes depth) = trees := by
  induction h generalizing depth with
  | nil => rfl
  | @leaf bound i s token rest slots hle _ hnode _ ih =>
      have hlt := (List.getElem?_eq_some_iff.mp hnode).1
      obtain ⟨depth, rfl⟩ : ∃ n, depth = n + 1 := ⟨depth - 1, by omega⟩
      rw [List.map_cons, ih hdepth, treeAt, hnode]
  | @branch bound i r children rest inner slots hle _ hnode _ _ ihchildren ih =>
      have hlt := (List.getElem?_eq_some_iff.mp hnode).1
      obtain ⟨depth, rfl⟩ : ∃ n, depth = n + 1 := ⟨depth - 1, by omega⟩
      rw [List.map_cons, ih hdepth, treeAt, hnode]
      dsimp only
      rw [ihchildren (by omega)]

end Shows

-- An open node: trees are finished for its first slots, and symbols are on the stack for the last
-- ones.
structure Frame where
  node : Nat
  rule : Option Rule
  finished : List Tree
  symbols : List Symbol

-- Between its finished trees and its empty slots, an open node has the open node below, if any.
structure Frame.IsOpen (nodes : List Node) (opened : List Nat) (below : List (Option Nat))
    (f : Frame) : Prop where
  slots : ∃ slots, Shows nodes opened (f.node + 1) f.finished slots ∧ nodes[f.node]? =
    some (.branch f.rule (slots ++ (below ++ List.replicate f.symbols.length none)))
  width : f.finished.length + below.length + f.symbols.length = f.rule.elim 1 (·.rhs.length)
  endOfInput_notMem : .endOfInput ∉ f.symbols

-- Open nodes from the innermost one out to the placeholder.
inductive Nested (nodes : List Node) (opened : List Nat) :
    (below : List (Option Nat)) → List Frame → Prop
  | placeholder {below : List (Option Nat)} {f : Frame} (h : f.IsOpen nodes opened below)
      (hnode : f.node = 0) (hrule : f.rule = none) : Nested nodes opened below [f]
  | inside {below : List (Option Nat)} {f g : Frame} {outer : List Frame} {r : Rule}
      (h : f.IsOpen nodes opened below) (hrule : f.rule = some r) (hlt : g.node < f.node)
      (houter : Nested nodes opened [some f.node] (g :: outer)) :
      Nested nodes opened below (f :: g :: outer)

variable {f f' g : Frame} {frames outer : List Frame} {below below' : List (Option Nat)}

namespace Frame.IsOpen

theorem lt_length (h : f.IsOpen nodes opened below) : f.node < nodes.length := by
  obtain ⟨slots, -, hnode⟩ := h.slots
  exact (List.getElem?_eq_some_iff.mp hnode).1

theorem mono (hkeeps : Keeps nodes opened nodes' opened')
    (hf : ∀ node, nodes[f.node]? = some node → nodes'[f.node]? = some node)
    (h : f.IsOpen nodes opened below) : f.IsOpen nodes' opened' below := by
  obtain ⟨slots, hshows, hnode⟩ := h.slots
  exact ⟨⟨slots, hshows.mono hkeeps, hf _ hnode⟩, h.width, h.endOfInput_notMem⟩

-- One symbol less leaves room for one node more.
theorem width_of_cons {x : Symbol} {rest : List Symbol} (h : f.IsOpen nodes opened [])
    (hsymbols : f.symbols = x :: rest) :
    f.finished.length + 1 + rest.length = f.rule.elim 1 (·.rhs.length) := by
  have hwidth := h.width
  rw [hsymbols, List.length_nil, List.length_cons] at hwidth
  omega

end Frame.IsOpen

namespace Nested

theorem isOpen (h : Nested nodes opened below (f :: outer)) : f.IsOpen nodes opened below := by
  cases h with
  | placeholder h => exact h
  | inside h => exact h

theorem lt_length (h : Nested nodes opened below frames) :
    ∀ f ∈ frames, f.node < nodes.length := by
  induction h with
  | placeholder h => exact List.forall_mem_singleton.mpr h.lt_length
  | inside h _ _ _ ih => exact List.forall_mem_cons.mpr ⟨h.lt_length, ih⟩

-- Open nodes are older than those below them.
theorem lt (h : Nested nodes opened below (f :: outer)) : ∀ g ∈ outer, g.node < f.node := by
  generalize hframes : f :: outer = frames at h
  induction h generalizing f outer with
  | placeholder =>
      cases hframes
      exact List.forall_mem_nil _
  | inside _ _ hlt _ ih =>
      cases hframes
      exact List.forall_mem_cons.mpr ⟨hlt, fun g hg => (ih rfl g hg).trans hlt⟩

theorem mono (hkeeps : Keeps nodes opened nodes' opened')
    (hframes : ∀ f ∈ frames, ∀ node, nodes[f.node]? = some node → nodes'[f.node]? = some node)
    (h : Nested nodes opened below frames) : Nested nodes' opened' below frames := by
  induction h with
  | placeholder h hnode hrule =>
      exact .placeholder (h.mono hkeeps (List.forall_mem_singleton.mp hframes)) hnode hrule
  | inside h hrule hlt _ ih =>
      obtain ⟨hf, hframes⟩ := List.forall_mem_cons.mp hframes
      exact .inside (h.mono hkeeps hf) hrule hlt (ih hframes)

-- The innermost open node is changed, and everything else is kept.
theorem replace (h : Nested nodes opened below (f :: outer))
    (hf : f'.IsOpen nodes' opened' below') (hnode : f'.node = f.node) (hrule : f'.rule = f.rule)
    (hkeeps : Keeps nodes opened nodes' opened')
    (hothers : ∀ i ≠ f.node, ∀ node, nodes[i]? = some node → nodes'[i]? = some node) :
    Nested nodes' opened' below' (f' :: outer) := by
  have hlt := h.lt
  cases h with
  | placeholder _ hzero hnone => exact .placeholder hf (hnode.trans hzero) (hrule.trans hnone)
  | inside _ hsome hinner houter =>
      refine .inside hf (hrule.trans hsome) (hnode ▸ hinner) (hnode ▸ houter.mono hkeeps ?_)
      exact fun g hg => hothers g.node (Nat.ne_of_lt (hlt g hg))

end Nested

open Lookahead.Parser (Goal)

-- What the other parser has on its stack for open nodes, and the trees that it has built for them.
def goalsOf : List Frame → List Goal
  | [] => [.symbol .endOfInput]
  | f :: outer => f.symbols.map .symbol ++ ((f.rule.map .close).toList ++ goalsOf outer)

def builtOf : List Frame → List Tree
  | [] => []
  | f :: outer => f.finished.reverse ++ builtOf outer

-- The stack for open nodes. The slot of the node below, if there is one, is passed over.
def stackOf : (below : Nat) → List Frame → List Item
  | _, [] => [⟨.endOfInput, none, 0⟩]
  | below, f :: outer =>
    items f.node (f.finished.length + below) f.symbols ++ stackOf 1 outer

-- The states of both parsers at the same moment of a parse.
structure Mirrors (frames : List Frame) (s : Parser.State) (s' : State) : Prop where
  goals_eq : s.goals = goalsOf frames
  built_eq : s.built = builtOf frames
  stack_eq : s'.stack = stackOf 0 frames
  token_eq : s'.token = s.token
  pulls_eq : s'.pulls = s.pulls
  nested : Nested s'.nodes (frames.map Frame.node) [] frames

-- What both parsers do at the same moment.
inductive Agree : Progress Parser.State → Progress State → Prop
  | next (frames : List Frame) {s : Parser.State} {s' : State} (h : Mirrors frames s s') :
      Agree (.next s) (.next s')
  | done {report : Report} : Agree (.done report) (.done report)

variable {t : Table} {input : Input} {s : Parser.State} {s' : State} {x : Symbol}
  {rest : List Symbol} {node : Node}

theorem items_cons (parent slot : Nat) (x : Symbol) (rest : List Symbol) :
    items parent slot (x :: rest) = ⟨x, some parent, slot⟩ :: items parent (slot + 1) rest := by
  rw [items, List.zipIdx_cons, List.map_cons, items]

-- A new node is put into the first empty slot of the innermost open node.
theorem exists_fill (h : f.IsOpen nodes opened []) (hsymbols : f.symbols = x :: rest)
    (node : Node) :
    ∃ slots nodes', Shows nodes opened (f.node + 1) f.finished slots ∧
      fill? nodes ⟨x, some f.node, f.finished.length⟩ node = some nodes' ∧
      nodes'[f.node]? = some (.branch f.rule
        (slots ++ some nodes.length :: List.replicate rest.length none)) ∧
      nodes'[nodes.length]? = some node ∧
      ∀ i ≠ f.node, ∀ node, nodes[i]? = some node → nodes'[i]? = some node := by
  obtain ⟨slots, hshows, hnode⟩ := h.slots
  rw [hsymbols, List.nil_append, List.length_cons, List.replicate_succ] at hnode
  have hlt := h.lt_length
  have hslot : f.finished.length <
      (slots ++ none :: List.replicate rest.length (none : Option Nat)).length := by
    rw [hshows.length_eq, List.length_append, List.length_cons]
    omega
  have hset : (slots ++ none :: List.replicate rest.length (none : Option Nat)).set
      f.finished.length (some nodes.length) =
        slots ++ some nodes.length :: List.replicate rest.length none := by
    rw [hshows.length_eq, List.set_append_right _ _ (Nat.le_refl _), Nat.sub_self]
    rfl
  refine ⟨slots, nodes.set f.node (.branch f.rule
    (slots ++ some nodes.length :: List.replicate rest.length none)) ++ [node], hshows, ?_, ?_,
    ?_, ?_⟩
  · simp only [fill?, Option.bind_eq_bind, Option.bind_some, hnode, if_pos hslot, hset]
  · rw [List.getElem?_append_left (by rwa [List.length_set]), List.getElem?_set_self hlt]
  · rw [List.getElem?_append_right (by rw [List.length_set]), List.length_set, Nat.sub_self]
    rfl
  · intro i hi node' hnode'
    have hi' := (List.getElem?_eq_some_iff.mp hnode').1
    rw [List.getElem?_append_left (by rwa [List.length_set]), List.getElem?_set_ne (Ne.symm hi),
      hnode']

-- A leaf is finished as soon as it is made.
theorem Nested.exists_leaf (h : Nested nodes ((f :: outer).map Frame.node) [] (f :: outer))
    (hsymbols : f.symbols = x :: rest) (token : Token) :
    ∃ nodes', fill? nodes ⟨x, some f.node, f.finished.length⟩ (.leaf x token) = some nodes' ∧
      Nested nodes' ((f :: outer).map Frame.node) []
        ({ f with finished := f.finished ++ [.leaf (some x) (some token)], symbols := rest } ::
          outer) := by
  obtain ⟨slots, nodes', hshows, hfill, hbranch, hleaf, hothers⟩ :=
    exists_fill h.isOpen hsymbols (.leaf x token)
  have hkeeps : Keeps nodes ((f :: outer).map Frame.node) nodes' ((f :: outer).map Frame.node) := by
    intro i node hclosed hnode
    exact ⟨hclosed, hothers i (fun heq => hclosed (heq ▸ List.mem_cons_self)) node hnode⟩
  have hnew : nodes.length ∉ (f :: outer).map Frame.node := by
    intro hmem
    obtain ⟨g, hg, heq⟩ := List.mem_map.mp hmem
    exact Nat.ne_of_lt (h.lt_length g hg) heq
  refine ⟨nodes', hfill, h.replace ⟨⟨slots ++ [some nodes.length], ?_, ?_⟩, ?_, ?_⟩ rfl rfl hkeeps
    hothers⟩
  · exact (hshows.mono hkeeps).append (.leaf h.isOpen.lt_length hnew hleaf .nil)
  · rw [hbranch, List.append_assoc]
    rfl
  · rw [List.length_append]
    exact h.isOpen.width_of_cons hsymbols
  · exact fun hmem => h.isOpen.endOfInput_notMem (hsymbols ▸ List.mem_cons_of_mem x hmem)

-- A branch is open, with nothing in its slots, and lies below the node that has been the innermost.
theorem Nested.exists_branch (h : Nested nodes ((f :: outer).map Frame.node) [] (f :: outer))
    (hsymbols : f.symbols = x :: rest) {r : Rule} (hr : .endOfInput ∉ r.rhs) :
    ∃ nodes', fill? nodes ⟨x, some f.node, f.finished.length⟩ (emptyBranch r) = some nodes' ∧
      Nested nodes' (nodes.length :: (f :: outer).map Frame.node) []
        (⟨nodes.length, some r, [], r.rhs⟩ :: { f with symbols := rest } :: outer) := by
  obtain ⟨slots, nodes', hshows, hfill, hbranch, hnew, hothers⟩ :=
    exists_fill h.isOpen hsymbols (emptyBranch r)
  have hkeeps : Keeps nodes ((f :: outer).map Frame.node) nodes'
      (nodes.length :: (f :: outer).map Frame.node) := by
    intro i node hclosed hnode
    have hlt := (List.getElem?_eq_some_iff.mp hnode).1
    refine ⟨fun hmem => ?_, hothers i (fun heq => hclosed (heq ▸ List.mem_cons_self)) node hnode⟩
    rcases List.mem_cons.mp hmem with rfl | hmem
    · exact Nat.lt_irrefl _ hlt
    · exact hclosed hmem
  have hinner : (⟨nodes.length, some r, [], r.rhs⟩ : Frame).IsOpen nodes'
      (nodes.length :: (f :: outer).map Frame.node) [] :=
    ⟨⟨[], .nil, hnew⟩, Nat.zero_add _, hr⟩
  refine ⟨nodes', hfill, .inside hinner rfl h.isOpen.lt_length
    (h.replace ⟨⟨slots, hshows.mono hkeeps, hbranch⟩, ?_, ?_⟩ rfl rfl hkeeps hothers)⟩
  · exact h.isOpen.width_of_cons hsymbols
  · exact fun hmem => h.isOpen.endOfInput_notMem (hsymbols ▸ List.mem_cons_of_mem x hmem)

-- An open node without symbols on the stack is finished.
theorem Nested.close (h : Nested nodes ((f :: g :: outer).map Frame.node) [] (f :: g :: outer))
    (hsymbols : f.symbols = []) :
    Nested nodes ((g :: outer).map Frame.node) []
      ({ g with finished := g.finished ++ [.branch f.rule f.finished] } :: outer) := by
  have hkeeps : Keeps nodes ((f :: g :: outer).map Frame.node) nodes
      ((g :: outer).map Frame.node) :=
    fun i node hclosed hnode => ⟨fun hmem => hclosed (List.mem_cons_of_mem _ hmem), hnode⟩
  have hclosed : f.node ∉ (g :: outer).map Frame.node := by
    intro hmem
    obtain ⟨k, hk, heq⟩ := List.mem_map.mp hmem
    exact Nat.ne_of_lt (h.lt k hk) heq
  obtain ⟨inner, hinner, hnode⟩ := h.isOpen.slots
  rw [hsymbols] at hnode
  simp only [List.length_nil, List.replicate_zero, List.append_nil] at hnode
  cases h with
  | inside hf hrule hlt houter =>
      obtain ⟨slots, hshows, hbranch⟩ := houter.isOpen.slots
      have hclosing : Shows nodes ((g :: outer).map Frame.node) (g.node + 1)
          [.branch f.rule f.finished] [some f.node] :=
        .branch hlt hclosed hnode (hinner.mono hkeeps) .nil
      refine houter.replace ⟨⟨slots ++ [some f.node], (hshows.mono hkeeps).append hclosing, ?_⟩, ?_,
        houter.isOpen.endOfInput_notMem⟩ rfl rfl hkeeps fun i _ node hnode => hnode
      · rw [hbranch, List.append_assoc]
        rfl
      · have hwidth := houter.isOpen.width
        rw [← hwidth, List.length_append]
        simp only [List.length_cons, List.length_nil]

-- With nothing left on the stack, the tree hangs on the placeholder.
theorem result_eq (h : f.IsOpen nodes opened []) (hnode : f.node = 0) (hrule : f.rule = none)
    (hsymbols : f.symbols = []) : result nodes = f.finished.reverse.headD .missing := by
  obtain ⟨slots, hshows, hbranch⟩ := h.slots
  have hwidth := h.width
  rw [hrule, hsymbols] at hwidth
  obtain ⟨tree, htree⟩ := List.length_eq_one_iff.mp (show f.finished.length = 1 from hwidth)
  rw [htree] at hshows
  obtain ⟨slot, rfl⟩ := List.length_eq_one_iff.mp hshows.length_eq.symm
  rw [hnode, hsymbols] at hbranch
  have htreeAt : [slot].map (treeAt nodes nodes.length) = [tree] :=
    hshows.map_treeAt (Nat.le_add_right _ _)
  rw [result, hbranch, htree]
  exact List.singleton_inj.mp htreeAt

theorem agree_pull (frames : List Frame) {goals : List Goal} {built : List Tree}
    {stack : List Item} {pulls : Nat} (h : ∀ token, Mirrors frames
      ⟨goals, built, token, pulls + 1⟩ ⟨nodes, stack, token, pulls + 1⟩) :
    Agree (Parser.pull input pulls goals built) (pull input pulls nodes stack) := by
  unfold Parser.pull pull
  cases input.pull pulls with
  | ok token => exact .next frames (h token)
  | error report => exact .done

-- Both parsers do the same with a symbol on top of the stack.
theorem Mirrors.agree_symbol (ht : ∀ r ∈ t.grammar.rules, .endOfInput ∉ r.rhs)
    (h : Mirrors (f :: outer) s s') (hsymbols : f.symbols = x :: rest) :
    Agree (Parser.step t input s) (step t input s') := by
  obtain ⟨goals, built, _, _⟩ := s
  obtain ⟨nodes, stack, token, pulls⟩ := s'
  obtain ⟨hgoals, hbuilt, hstack, htoken, hpulls, hnested⟩ := h
  simp only [goalsOf, builtOf, stackOf, hsymbols, items_cons, List.map_cons, List.cons_append,
    Nat.add_zero] at hgoals hbuilt hstack htoken hpulls hnested
  subst hgoals hbuilt hstack htoken hpulls
  have hne : x ≠ .endOfInput := by
    rintro rfl
    exact hnested.isOpen.endOfInput_notMem (hsymbols ▸ List.mem_cons_self)
  have hchosen := chosen t token x
  simp only [Parser.step, step]
  generalize choice t token x = c at hchosen
  cases hchosen with
  | accept => exact absurd rfl hne
  | @shift i _ =>
      obtain ⟨nodes', hfill, hnested⟩ := hnested.exists_leaf hsymbols token
      dsimp only
      rw [hfill]
      refine agree_pull ({ f with
        finished := f.finished ++ [.leaf (some (.terminal i)) (some token)]
        symbols := rest } :: outer) fun token' => ⟨?_, ?_, ?_, rfl, rfl, hnested⟩
      · simp [goalsOf]
      · simp [builtOf]
      · simp [stackOf]
  | @expand i r hr =>
      obtain ⟨nodes', hfill, hnested⟩ := hnested.exists_branch hsymbols (ht r hr)
      dsimp only
      rw [hfill]
      refine .next (⟨nodes.length, some r, [], r.rhs⟩ :: { f with symbols := rest } :: outer)
        ⟨?_, ?_, ?_, rfl, rfl, hnested⟩
      · simp [goalsOf]
      · simp [builtOf]
      · simp [stackOf]
  | reject => exact .done
  | breakDown => exact .done

-- Both parsers end alike if nothing is on the stack but the end of input.
theorem Mirrors.agree_end (h : Mirrors [f] s s') (hnode : f.node = 0) (hrule : f.rule = none)
    (hsymbols : f.symbols = []) : Agree (Parser.step t input s) (step t input s') := by
  obtain ⟨goals, built, _, _⟩ := s
  obtain ⟨nodes, stack, token, pulls⟩ := s'
  obtain ⟨hgoals, hbuilt, hstack, htoken, hpulls, hnested⟩ := h
  have hresult := result_eq hnested.isOpen hnode hrule hsymbols
  simp only [goalsOf, builtOf, stackOf, items, hsymbols, hrule, List.map_nil, List.zipIdx_nil,
    Option.map_none, Option.toList_none, List.nil_append, List.append_nil]
    at hgoals hbuilt hstack htoken hpulls
  subst hgoals hbuilt hstack htoken hpulls
  have hchosen := chosen t token .endOfInput
  simp only [Parser.step, step]
  generalize choice t token .endOfInput = c at hchosen
  cases hchosen with
  | accept =>
      dsimp only
      rw [hresult]
      exact .done
  | reject => exact .done

-- The other parser has a step of its own, with which it puts a finished tree together.
theorem Mirrors.close (h : Mirrors (f :: g :: outer) s s') {r : Rule} (hrule : f.rule = some r)
    (hsymbols : f.symbols = []) :
    ∃ s₁, Parser.step t input s = .next s₁ ∧
      Mirrors ({ g with finished := g.finished ++ [.branch f.rule f.finished] } :: outer) s₁ s' := by
  obtain ⟨goals, built, _, _⟩ := s
  obtain ⟨nodes, stack, token, pulls⟩ := s'
  obtain ⟨hgoals, hbuilt, hstack, htoken, hpulls, hnested⟩ := h
  have hwidth := hnested.isOpen.width
  rw [hrule, hsymbols] at hwidth
  simp only [goalsOf, builtOf, hsymbols, hrule, List.map_nil, Option.map_some,
    Option.toList_some, List.nil_append, List.cons_append] at hgoals hbuilt htoken hpulls
  subst hgoals hbuilt htoken hpulls
  refine ⟨_, rfl, ?_, ?_, ?_, rfl, rfl, hnested.close hsymbols⟩
  · simp [goalsOf]
  · rw [Parser.reduce_eq r hwidth]
    simp [builtOf, hrule]
  · rw [hstack]
    simp [stackOf, hsymbols, items]

-- What happens with a step: both parsers do the same, or the other one puts a finished tree
-- together.
theorem Mirrors.simulates (ht : ∀ r ∈ t.grammar.rules, .endOfInput ∉ r.rhs) (input : Input)
    (h : Mirrors frames s s') :
    Agree (Parser.step t input s) (step t input s') ∨
      ∃ s₁ outer, Parser.step t input s = .next s₁ ∧ Mirrors outer s₁ s' ∧
        outer.length < frames.length := by
  cases h.nested with
  | @placeholder _ f _ hnode hrule =>
      cases hsymbols : f.symbols with
      | nil => exact .inl (h.agree_end hnode hrule hsymbols)
      | cons x rest => exact .inl (h.agree_symbol ht hsymbols)
  | @inside _ f g outer r _ hrule _ _ =>
      cases hsymbols : f.symbols with
      | nil =>
          obtain ⟨s₁, hstep, hmirrors⟩ := h.close hrule hsymbols
          exact .inr ⟨s₁, _, hstep, hmirrors, Nat.lt_succ_self _⟩
      | cons x rest => exact .inl (h.agree_symbol ht hsymbols)

variable {progress : Progress Parser.State} {progress' : Progress State} {report : Report}
  {fuel : Nat}

-- What the other parser reports is reported within as many steps.
theorem run_of_agree (ht : ∀ r ∈ t.grammar.rules, .endOfInput ∉ r.rhs)
    (h : Agree progress progress')
    (hrun : Parser.run (Parser.step t input) fuel progress = some report) :
    ∀ fuel' ≥ fuel, Parser.run (step t input) fuel' progress' = some report := by
  induction fuel generalizing progress progress' with
  | zero =>
      intro fuel' _
      cases h with
      | next => cases hrun
      | done =>
          cases hrun
          exact Parser.run_done _ _ _
  | succ fuel ih =>
      intro fuel' hle
      cases h with
      | done =>
          cases hrun
          exact Parser.run_done _ _ _
      | next frames hmirrors =>
          rcases hmirrors.simulates ht input with hagree | ⟨s₁, outer, hstep, hmirrors, -⟩
          · obtain ⟨fuel', rfl⟩ := Nat.exists_eq_add_of_le' hle
            exact ih hagree hrun (fuel' + fuel) (Nat.le_add_left _ _)
          · rw [Parser.run, hstep] at hrun
            exact ih (.next outer hmirrors) hrun fuel' (Nat.le_of_succ_le hle)

-- The other way round, the other parser needs more steps, but as few of its own in a row as there
-- are open nodes.
theorem exists_run_of_agree (ht : ∀ r ∈ t.grammar.rules, .endOfInput ∉ r.rhs)
    (h : Agree progress progress')
    (hrun : Parser.run (step t input) fuel progress' = some report) :
    ∃ fuel', Parser.run (Parser.step t input) fuel' progress = some report := by
  induction fuel generalizing progress progress' with
  | zero =>
      cases h with
      | next => cases hrun
      | done => exact ⟨0, hrun⟩
  | succ fuel ih =>
      cases h with
      | done => exact ⟨0, hrun⟩
      | @next frames s s' hmirrors =>
          induction hlength : frames.length using Nat.strong_induction_on generalizing frames s with
          | _ n ihframes =>
              rcases hmirrors.simulates ht input with hagree | ⟨s₁, outer, hstep, hmirrors, hlt⟩
              · obtain ⟨fuel', hrun'⟩ := ih hagree hrun
                exact ⟨fuel' + 1, hrun'⟩
              · obtain ⟨fuel', hrun'⟩ := ihframes _ (hlength ▸ hlt) outer hmirrors rfl
                refine ⟨fuel' + 1, ?_⟩
                rw [Parser.run, hstep]
                exact hrun'

theorem agree_begin (t : Table) (input : Input) :
    Agree (Parser.begin t input) (begin t input) := by
  have hopen : (⟨0, none, [], [.nonterminal t.grammar.start]⟩ : Frame).IsOpen
      [.branch none [none]] [0] [] :=
    ⟨⟨[], .nil, rfl⟩, rfl, by simp⟩
  exact agree_pull [⟨0, none, [], [.nonterminal t.grammar.start]⟩] fun token =>
    ⟨rfl, rfl, rfl, rfl, rfl, .placeholder hopen rfl rfl⟩

-- Whatever the source delivers, the parser that puts nodes into slots gives the reports of the one
-- that puts finished trees together, and never misses a slot.
theorem parseWithin_of_eq_some (ht : t.IsBuilt) {input : Option Input}
    (h : Parser.parseWithin fuel (some t) input = some report) :
    parseWithin fuel (some t) input = some report := by
  cases input with
  | none => exact h
  | some input =>
      unfold Parser.parseWithin Parser.guarded at h
      unfold parseWithin Parser.guarded
      cases hl : t.isLeftRecursive with
      | true =>
          simp only [hl, if_true] at h ⊢
          exact h
      | false =>
          simp only [hl, Bool.false_eq_true, if_false] at h ⊢
          exact run_of_agree ht.endOfInput_notMem (agree_begin t input) h fuel (Nat.le_refl fuel)

theorem exists_parseWithin_iff (ht : t.IsBuilt) (input : Option Input) (report : Report) :
    (∃ fuel, parseWithin fuel (some t) input = some report) ↔
      ∃ fuel, Parser.parseWithin fuel (some t) input = some report := by
  refine ⟨fun ⟨fuel, h⟩ => ?_, fun ⟨fuel, h⟩ => ⟨fuel, parseWithin_of_eq_some ht h⟩⟩
  cases input with
  | none => exact ⟨fuel, h⟩
  | some input =>
      unfold parseWithin Parser.guarded at h
      unfold Parser.parseWithin Parser.guarded
      cases hl : t.isLeftRecursive with
      | true =>
          simp only [hl, if_true] at h ⊢
          exact ⟨0, h⟩
      | false =>
          simp only [hl, Bool.false_eq_true, if_false] at h ⊢
          exact exists_run_of_agree ht.endOfInput_notMem (agree_begin t input) h

end SlotParser

end Lookahead
