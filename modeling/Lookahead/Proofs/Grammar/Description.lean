import Lookahead.Proofs.Grammar.Reconstruction
import Mathlib.Tactic.IntervalCases

/-!
What the rendering of a description tells about a grammar. It determines the description, and so
the grammar, as long as no name holds a quote; names are put in quotes as they are, so that a quote
within a name may pass for the end of it.
-/

namespace Lookahead

namespace Text

-- The byte that names are quoted with.
def quote : UInt8 := 0x22

-- Two texts that agree up to a mark that neither of them holds are the same up to there.
theorem eq_of_append_mark {mark : UInt8} {a b u v : Text} (ha : mark ∉ a) (hb : mark ∉ b)
    (h : a ++ mark :: u = b ++ mark :: v) : a = b ∧ u = v := by
  induction a generalizing b with
  | nil =>
      cases b with
      | nil => exact ⟨rfl, (List.cons.inj h).2⟩
      | cons y b => exact absurd ((List.cons.inj h).1 ▸ List.mem_cons_self) hb
  | cons x a ih =>
      rw [List.mem_cons, not_or] at ha
      cases b with
      | nil => exact absurd (List.cons.inj h).1.symm ha.1
      | cons y b =>
          rw [List.mem_cons, not_or] at hb
          obtain ⟨rfl, hrest⟩ := List.cons.inj h
          obtain ⟨rfl, rfl⟩ := ih ha.2 hb.2 hrest
          exact ⟨rfl, rfl⟩

theorem join_cons (separator part : Text) (parts : List Text) :
    join separator (part :: parts) = part ++ parts.flatMap (separator ++ ·) := by
  induction parts generalizing part with
  | nil => simp [join]
  | cons next parts ih =>
      have hnext := ih next
      unfold join at hnext ⊢
      rw [List.intercalate_cons_cons, hnext, List.flatMap_cons]
      simp only [List.append_assoc]

-- A decimal digit and its byte tell the same.
theorem toNat_bounds_of_isDigit {c : Char} (h : c.isDigit = true) :
    0x30 ≤ c.toNat ∧ c.toNat ≤ 0x39 := by
  simpa [Char.isDigit, UInt32.le_iff_toNat_le] using h

theorem isDecimalByte_of_mem_ofNat {n : Nat} {b : UInt8} (h : b ∈ ofNat n) :
    isDecimalByte b = true := by
  obtain ⟨c, hc, rfl⟩ := List.mem_map.mp h
  obtain ⟨hlow, hhigh⟩ := toNat_bounds_of_isDigit
    (Nat.isDigit_of_mem_toDigits (by decide) (by decide) hc)
  generalize c.toNat = k at hlow hhigh
  interval_cases k <;> rfl

theorem ofNat_injective {m n : Nat} (h : ofNat m = ofNat n) : m = n := by
  have hread : ∀ k, (ofNat k).map (fun b => Char.ofNat b.toNat) = Nat.toDigits 10 k := by
    intro k
    rw [ofNat, digits, List.map_map]
    refine (List.map_congr_left fun c hc => ?_).trans (List.map_id _)
    obtain ⟨-, hhigh⟩ := toNat_bounds_of_isDigit
      (Nat.isDigit_of_mem_toDigits (by decide) (by decide) hc)
    have hsmall : c.toNat < UInt8.size := by
      rw [UInt8.size]
      omega
    rw [Function.comp_apply, UInt8.toNat_ofNat_of_lt' hsmall, Char.ofNat_toNat, id]
  have hdigits : Nat.toDigits 10 m = Nat.toDigits 10 n := by rw [← hread, ← hread, h]
  rw [← Nat.ofDigitChars_toDigits (b := 10) (n := m) (by decide) (by decide), hdigits,
    Nat.ofDigitChars_toDigits (by decide) (by decide)]

theorem ofInt_injective {m n : Int} (h : ofInt m = ofInt n) : m = n := by
  have hminus : text "-" = [0x2D] := by decide
  -- a sign is no digit
  have hne : ∀ m n, ofNat m ≠ text "-" ++ ofNat n := by
    intro m n h
    have hmem : 0x2D ∈ ofNat m := by
      rw [h, hminus]
      exact List.mem_cons_self
    exact absurd (isDecimalByte_of_mem_ofNat hmem) (by decide)
  cases m with
  | ofNat m =>
      cases n with
      | ofNat n => rw [ofNat_injective h]
      | negSucc n => exact absurd h (hne m (n + 1))
  | negSucc m =>
      cases n with
      | ofNat n => exact absurd h.symm (hne n (m + 1))
      | negSucc n =>
          have hdigits := ofNat_injective (List.append_cancel_left h)
          rw [Nat.succ.inj hdigits]

theorem notMem_ofInt {mark : UInt8} (hmark : isDecimalByte mark = false) (hminus : mark ≠ 0x2D)
    (n : Int) : mark ∉ ofInt n := by
  have hdigits : ∀ n, mark ∉ ofNat n := by
    intro n h
    rw [isDecimalByte_of_mem_ofNat h] at hmark
    cases hmark
  have hsign : text "-" = [0x2D] := by decide
  cases n with
  | ofNat n => exact hdigits n
  | negSucc n =>
      rw [ofInt, hsign, List.singleton_append, List.mem_cons, not_or]
      exact ⟨hminus, hdigits (n + 1)⟩

end Text

namespace Description

variable {α : Type} {P : α → Prop} {f : α → Text}

-- Whether a value can be read off the front of any text that begins with its rendering, for values
-- with some property.
def IsReadable (P : α → Prop) (f : α → Text) : Prop :=
  ∀ a b u v, P a → P b → f a ++ u = f b ++ v → a = b ∧ u = v

theorem quoted_eq (name : Text) : quoted name = Text.quote :: (name ++ [Text.quote]) := rfl

theorem isReadable_quoted : IsReadable (Text.quote ∉ ·) quoted := by
  intro a b u v ha hb h
  simp only [quoted_eq, List.cons_append, List.append_assoc, List.nil_append] at h
  exact Text.eq_of_append_mark ha hb (List.cons.inj h).2

theorem list_nil : list [] = [0x5B, 0x5D] := rfl

theorem list_cons (item : Text) (items : List Text) :
    list (item :: items) = 0x5B :: (item ++ (items.flatMap (0x2C :: ·) ++ [0x5D])) := by
  have hbrackets : text "[" = [0x5B] ∧ text "," = [0x2C] ∧ text "]" = [0x5D] := by decide
  rw [list, hbrackets.1, hbrackets.2.1, hbrackets.2.2, Text.join_cons]
  simp

-- The items behind the first one, with a comma in front of each, up to the bracket.
theorem eq_of_flatMap_append (hf : IsReadable P f) {items others : List α} {u v : Text}
    (hitems : ∀ a ∈ items, P a) (hothers : ∀ a ∈ others, P a)
    (h : (items.map f).flatMap (0x2C :: ·) ++ 0x5D :: u =
      (others.map f).flatMap (0x2C :: ·) ++ 0x5D :: v) : items = others ∧ u = v := by
  induction items generalizing others with
  | nil =>
      cases others with
      | nil => exact ⟨rfl, by simpa using h⟩
      | cons b others => simp at h
  | cons a items ih =>
      cases others with
      | nil => simp at h
      | cons b others =>
          rw [List.forall_mem_cons] at hitems hothers
          simp only [List.map_cons, List.flatMap_cons, List.append_assoc, List.cons_append,
            List.cons.injEq, true_and] at h
          obtain ⟨rfl, hrest⟩ := hf a b _ _ hitems.1 hothers.1 h
          obtain ⟨rfl, rfl⟩ := ih hitems.2 hothers.2 hrest
          exact ⟨rfl, rfl⟩

-- A list is readable if its items are, and if none of them begins like the end of the list.
theorem IsReadable.list (hf : IsReadable P f) (mark : UInt8) (hmark : mark ≠ 0x5D)
    (hhead : ∀ a, (f a).head? = some mark) :
    IsReadable (fun items => ∀ a ∈ items, P a) fun items : List α => list (items.map f) := by
  have hstart : ∀ a u v, 0x5D :: u ≠ f a ++ v := by
    intro a u v h
    obtain ⟨rest, hrest⟩ := List.head?_eq_some_iff.mp (hhead a)
    rw [hrest, List.cons_append] at h
    exact hmark (List.cons.inj h).1.symm
  intro items others u v hitems hothers h
  simp only at h
  cases items with
  | nil =>
      cases others with
      | nil => exact ⟨rfl, by simpa using h⟩
      | cons b others =>
          rw [List.map_nil, List.map_cons, list_nil, list_cons] at h
          simp only [List.cons_append, List.nil_append, List.append_assoc, List.cons.injEq,
            true_and] at h
          exact absurd h (hstart b _ _)
  | cons a items =>
      cases others with
      | nil =>
          rw [List.map_nil, List.map_cons, list_nil, list_cons] at h
          simp only [List.cons_append, List.nil_append, List.append_assoc, List.cons.injEq,
            true_and] at h
          exact absurd h.symm (hstart a _ _)
      | cons b others =>
          rw [List.forall_mem_cons] at hitems hothers
          rw [List.map_cons, List.map_cons, list_cons, list_cons] at h
          simp only [List.cons_append, List.append_assoc, List.cons.injEq, true_and] at h
          obtain ⟨rfl, hrest⟩ := hf a b _ _ hitems.1 hothers.1 h
          obtain ⟨rfl, rfl⟩ := eq_of_flatMap_append hf hitems.2 hothers.2 (by simpa using hrest)
          exact ⟨rfl, rfl⟩

theorem isReadable_terminal : IsReadable (Text.quote ∉ ·.name) terminal := by
  intro a b u v ha hb h
  have hbrace : text "\x7d" = [0x7D] := by decide
  simp only [terminal, hbrace, List.append_assoc] at h
  obtain ⟨hname, hrest⟩ :=
    isReadable_quoted a.name b.name _ _ ha hb (List.append_cancel_left h)
  obtain ⟨htype, rfl⟩ := Text.eq_of_append_mark (Text.notMem_ofInt (by decide) (by decide) a.type)
    (Text.notMem_ofInt (by decide) (by decide) b.type) (List.append_cancel_left hrest)
  obtain ⟨name, type⟩ := a
  obtain rfl : name = b.name := hname
  obtain rfl : type = b.type := Text.ofInt_injective htype
  exact ⟨rfl, rfl⟩

-- A description without quotes in its names.
structure IsPlain (d : Description) : Prop where
  name : Text.quote ∉ d.name
  terminals : ∀ t ∈ d.terminals, Text.quote ∉ t.name
  nonterminals : ∀ name ∈ d.nonterminals, Text.quote ∉ name
  rules : ∀ names ∈ d.rules, ∀ name ∈ names, Text.quote ∉ name
  start : Text.quote ∉ d.start

-- Plain descriptions are told apart by their renderings.
theorem render_injective {d e : Description} (hd : d.IsPlain) (he : e.IsPlain)
    (h : d.render = e.render) : d = e := by
  have hrule := isReadable_quoted.list Text.quote (by decide) fun _ => rfl
  obtain ⟨name, terminals, nonterminals, rules, start⟩ := d
  obtain ⟨name', terminals', nonterminals', rules', start'⟩ := e
  simp only [render, List.append_assoc] at h
  obtain ⟨rfl, hname⟩ := isReadable_quoted _ _ _ _ hd.name he.name (List.append_cancel_left h)
  obtain ⟨rfl, hnonterminals⟩ := isReadable_quoted.list Text.quote (by decide)
    (fun _ => rfl) _ _ _ _ hd.nonterminals he.nonterminals (List.append_cancel_left hname)
  obtain ⟨rfl, hrules⟩ := hrule.list 0x5B (by decide) (fun _ => rfl) _ _ _ _
    hd.rules he.rules (List.append_cancel_left hnonterminals)
  obtain ⟨rfl, hstart⟩ := isReadable_quoted _ _ _ _ hd.start he.start
    (List.append_cancel_left hrules)
  obtain ⟨rfl, -⟩ := isReadable_terminal.list 0x7B (by decide) (fun _ => rfl) _ _ _ _
    hd.terminals he.terminals (List.append_cancel_left hstart)
  rfl

end Description

namespace Grammar

variable {g h : Grammar}

-- Names without quotes.
structure HasPlainNames (g : Grammar) : Prop where
  name : Text.quote ∉ g.name
  terminals : ∀ t ∈ g.terminals, Text.quote ∉ t.name
  nonterminals : ∀ name ∈ g.nonterminals, Text.quote ∉ name

theorem HasPlainNames.nameOf (hg : g.HasPlainNames) (x : Symbol) : Text.quote ∉ g.nameOf x := by
  cases x with
  | terminal i =>
      rw [Grammar.nameOf]
      cases hi : g.terminals[i]? with
      | none => simp
      | some t => exact hg.terminals t (List.mem_of_getElem? hi)
  | nonterminal i =>
      rw [Grammar.nameOf]
      cases hi : g.nonterminals[i]? with
      | none => simp
      | some name => exact hg.nonterminals name (List.mem_of_getElem? hi)
  | endOfInput =>
      rw [Grammar.nameOf]
      decide

theorem HasPlainNames.isPlain_describe (hg : g.HasPlainNames) : g.describe.IsPlain where
  name := hg.name
  terminals := hg.terminals
  nonterminals := hg.nonterminals
  rules := by
    intro names hnames name hname
    obtain ⟨r, -, rfl⟩ := List.mem_map.mp hnames
    rw [← List.map_cons] at hname
    obtain ⟨x, -, rfl⟩ := List.mem_map.mp hname
    exact hg.nameOf x
  start := hg.nameOf (.nonterminal g.start)

-- Without quotes in their names, grammars are told apart by the renderings of their descriptions.
theorem IsFirstBuild.eq_of_render (hg : g.IsFirstBuild) (hh : h.IsFirstBuild)
    (hplain : g.HasPlainNames) (hplain' : h.HasPlainNames)
    (he : h.describe.render = g.describe.render) : h = g :=
  hg.eq_of_describe hh
    (Description.render_injective hplain'.isPlain_describe hplain.isPlain_describe he)

end Grammar

end Lookahead
