import Lookahead.Lexis.Lexer
import Lookahead.Proofs.Lexis.RegexReader
import Lookahead.Proofs.Text.Utf8

/-!
Expressions for literals. Escapes stand in front of whole characters, but an expression is read byte
by byte. A backslash in front of a character of several bytes is spent on the first one, and the
others stand for themselves, so that the expression matches the literal and nothing else. All that
is asked of the syntax of expressions is what plain bytes and escapes stand for.
-/

namespace Lookahead

namespace Spelling

variable {b : UInt8} {item rest t u v w : Text} {means : Meaning}

-- ASCII letters and digits.
def isAlphanumeric (b : UInt8) : Bool :=
  (0x30 ≤ b && b ≤ 0x39) || (0x41 ≤ b && b ≤ 0x5A) || (0x61 ≤ b && b ≤ 0x7A)

-- Letters, digits, the underscore and the bytes above ASCII stand for themselves.
def isPlain (b : UInt8) : Bool := isAlphanumeric b || b = 0x5F || 0x80 ≤ b

-- What stands for a byte in an expression.
inductive Item : Text → UInt8 → Prop
  | plain {b : UInt8} (hb : isPlain b = true) : Item [b] b
  | escaped {b : UInt8} (hb : isAlphanumeric b = false) : Item [0x5C, b] b

theorem Item.length_pos (h : Item item b) : 0 < item.length := by
  cases h with
  | plain => exact Nat.one_pos
  | escaped => exact Nat.two_pos

-- How an expression without operators spells a text, item by item.
inductive Spells : (rest t : Text) → Prop
  | nil : Spells [] []
  | cons {b : UInt8} {item rest t : Text} (hitem : Item item b) (h : Spells rest t) :
      Spells (item ++ rest) (b :: t)

theorem Spells.append (h : Spells t u) (h' : Spells v w) : Spells (t ++ v) (u ++ w) := by
  induction h with
  | nil => exact h'
  | cons hitem _ ih =>
      rw [List.append_assoc]
      exact .cons hitem ih

theorem Spells.flatMap {α : Type} {f g : α → Text} {l : List α}
    (h : ∀ a ∈ l, Spells (f a) (g a)) : Spells (l.flatMap f) (l.flatMap g) := by
  induction l with
  | nil => exact .nil
  | cons a l ih =>
      obtain ⟨ha, hl⟩ := List.forall_mem_cons.mp h
      exact ha.append (ih hl)

theorem spells_of_isPlain (h : ∀ b ∈ t, isPlain b = true) : Spells t t := by
  induction t with
  | nil => exact .nil
  | cons b t ih =>
      obtain ⟨hb, ht⟩ := List.forall_mem_cons.mp h
      exact .cons (.plain hb) (ih ht)

-- What is asked of the syntax of expressions. A plain byte stands for itself, and so does a byte
-- behind a backslash, but for letters and digits; an item in front of others matches what is in
-- front of their match.
structure IsLiteral (means : Meaning) : Prop where
  plain {b : UInt8} (hb : isPlain b = true) (t : Text) : means [b] t ↔ t = [b]
  escaped {b : UInt8} (hb : isAlphanumeric b = false) (t : Text) : means [0x5C, b] t ↔ t = [b]
  inFront {item rest u : Text} {b : UInt8} (hitem : Item item b) (hrest : Spells rest u)
    (hne : u ≠ []) (t : Text) :
    means (item ++ rest) t ↔ ∃ v w, t = v ++ w ∧ means item v ∧ means rest w

theorem IsLiteral.item_iff (hmeans : IsLiteral means) (hitem : Item item b) (t : Text) :
    means item t ↔ t = [b] := by
  cases hitem with
  | plain hb => exact hmeans.plain hb t
  | escaped hb => exact hmeans.escaped hb t

-- What is spelled out matches the text that it spells, and nothing else.
theorem Spells.means_iff (hmeans : IsLiteral means) (h : Spells rest u) (hne : u ≠ []) (t : Text) :
    means rest t ↔ t = u := by
  induction h generalizing t with
  | nil => exact absurd rfl hne
  | @cons b item rest u hitem h ih =>
      by_cases hu : u = []
      · subst hu
        cases h
        rw [List.append_nil]
        exact hmeans.item_iff hitem t
      · rw [hmeans.inFront hitem h hu]
        constructor
        · rintro ⟨v, w, rfl, hv, hw⟩
          rw [(hmeans.item_iff hitem v).mp hv, (ih hu w).mp hw]
          rfl
        · rintro rfl
          exact ⟨[b], u, rfl, (hmeans.item_iff hitem _).mpr rfl, (ih hu u).mpr rfl⟩

end Spelling

namespace Regex

-- The bytes of a text one behind the other.
def literal (b : UInt8) : Text → Regex
  | [] => .bytes (.single b)
  | c :: rest => .cat (.bytes (.single b)) (literal c rest)

theorem matches_single_iff {b : UInt8} {t : Text} :
    Matches (.bytes (.single b)) t ↔ t = [b] := by
  constructor
  · intro h
    cases h with
    | bytes hb =>
        simp only [ByteClass.contains, ByteClass.single, List.any_cons, List.any_nil, Bool.or_false,
          Bool.and_eq_true, decide_eq_true_eq] at hb
        rw [UInt8.le_antisymm hb.2 hb.1]
  · rintro rfl
    exact .bytes (by simp [ByteClass.contains, ByteClass.single])

theorem matches_literal_iff {b : UInt8} {rest t : Text} :
    Matches (literal b rest) t ↔ t = b :: rest := by
  induction rest generalizing b t with
  | nil => exact matches_single_iff
  | cons c rest ih =>
      constructor
      · intro h
        obtain ⟨u, v, rfl, hu, hv⟩ := h.cat_inv
        rw [matches_single_iff.mp hu, ih.mp hv]
        rfl
      · rintro rfl
        exact (matches_single_iff.mpr rfl).cat (ih.mpr rfl)

end Regex

namespace RegexReader

open Spelling

variable {b : UInt8} {item t u : Text} {fuel : Nat}

theorem isOperator_of_isPlain (h : isPlain b = true) : isOperator b = false := by
  unfold isPlain isAlphanumeric at h
  unfold isOperator
  grind

-- None of the bytes that have a meaning of their own is plain.
theorem readUnit_of_isPlain (h : isPlain b = true) :
    readUnit b t = withOperators (.ofClass (.single b)) t := by
  have hne : ∀ c, isPlain c = false → b ≠ c := by
    rintro c hc rfl
    rw [h] at hc
    cases hc
  have hend : (isOperator b || b = 0x7C || b = 0x29 || b = 0x5D || b = 0x5E) = false := by
    simp [isOperator_of_isPlain h, hne 0x7C rfl, hne 0x29 rfl, hne 0x5D rfl, hne 0x5E rfl]
  unfold readUnit
  rw [if_neg (hne 0x5B rfl), hend, if_neg Bool.false_ne_true, if_neg (hne 0x5C rfl),
    if_neg (hne 0x2E rfl)]

-- The escapes of classes and control characters are letters.
theorem escapeClass_of_isAlphanumeric (h : isAlphanumeric b = false) :
    escapeClass b = .single b := by
  have hne : ∀ c, isAlphanumeric c = true → b ≠ c := by
    rintro c hc rfl
    rw [h] at hc
    cases hc
  rw [escapeClass, if_neg (hne 0x64 rfl), if_neg (hne 0x73 rfl), if_neg (hne 0x77 rfl),
    if_neg (hne 0x44 rfl), if_neg (hne 0x53 rfl), if_neg (hne 0x57 rfl), escapedByte,
    if_neg (hne 0x6E rfl), if_neg (hne 0x72 rfl), if_neg (hne 0x74 rfl)]

-- No operator stands in front of what is spelled out.
theorem withOperators_of_spells (h : Spells t u) (p : Part) : withOperators p t = (some p, t) := by
  cases h with
  | nil => rfl
  | cons hitem _ =>
      cases hitem with
      | plain hb =>
          rw [withOperators, List.singleton_append, readOperators, isOperator_of_isPlain hb]
          rfl
      | escaped => rfl

theorem readItem_of_item (hitem : Item item b) (h : Spells t u) (fuel : Nat) :
    ∃ c rest, item ++ t = c :: rest ∧
      readItem (fuel + 1) c rest = (some (.ofClass (.single b)), t) := by
  cases hitem with
  | plain hb =>
      refine ⟨b, t, rfl, ?_⟩
      rw [readItem, if_neg (by rintro rfl; cases hb), readUnit_of_isPlain hb,
        withOperators_of_spells h]
  | escaped hb =>
      refine ⟨0x5C, b :: t, rfl, ?_⟩
      show withOperators (.ofClass (escapeClass b)) t = _
      rw [escapeClass_of_isAlphanumeric hb, withOperators_of_spells h]

def partOf : Text → Part
  | [] => .nothing
  | b :: rest => .regex (.literal b rest)

theorem join_partOf (b : UInt8) (t : Text) :
    (Part.ofClass (.single b)).join .cat (partOf t) = partOf (b :: t) := by
  cases t <;> rfl

-- One item of the expression is one byte of the text. Each takes one step of fuel.
theorem readSequence_of_spells (h : Spells t u) (hfuel : t.length < fuel) :
    readSequence fuel t = (partOf u, []) := by
  induction h generalizing fuel with
  | nil =>
      obtain ⟨fuel, rfl⟩ := Nat.exists_eq_succ_of_ne_zero (Nat.ne_of_gt hfuel)
      rfl
  | @cons b item rest u hitem h ih =>
      have hpos := hitem.length_pos
      rw [List.length_append] at hfuel
      obtain ⟨fuel, rfl⟩ : ∃ n, fuel = n + 2 := ⟨fuel - 2, by omega⟩
      obtain ⟨c, behind, heq, hread⟩ := readItem_of_item hitem h fuel
      rw [heq, readSequence, hread]
      dsimp only
      rw [ih (by omega), join_partOf]

theorem read?_of_spells (h : Spells t (b :: u)) : read? t = some (.literal b u) := by
  have hsequence : readSequence (3 * t.length + 2) t = (partOf (b :: u), []) :=
    readSequence_of_spells h (by omega)
  rw [read?, readExpression, hsequence]
  rfl

theorem means_of_spells (h : Spells t (b :: u)) (v : Text) : Means t v ↔ v = b :: u := by
  rw [← Regex.matches_literal_iff]
  refine ⟨fun ⟨r, hr, hmatches⟩ => ?_, fun hmatches => ⟨_, read?_of_spells h, hmatches⟩⟩
  rw [read?_of_spells h] at hr
  cases hr
  exact hmatches

theorem spells_item (hitem : Item item b) : Spells item [b] := by
  rw [← List.append_nil item]
  exact .cons hitem .nil

theorem isLiteral_means : IsLiteral Means where
  plain hb := means_of_spells (spells_item (.plain hb))
  escaped hb := means_of_spells (spells_item (.escaped hb))
  inFront {item rest u b} hitem hrest hne t := by
    obtain ⟨c, u, rfl⟩ := List.exists_cons_of_ne_nil hne
    rw [means_of_spells (.cons hitem hrest)]
    constructor
    · rintro rfl
      exact ⟨[b], c :: u, rfl, (means_of_spells (spells_item hitem) _).mpr rfl,
        (means_of_spells hrest _).mpr rfl⟩
    · rintro ⟨v, w, rfl, hv, hw⟩
      rw [(means_of_spells (spells_item hitem) v).mp hv, (means_of_spells hrest w).mp hw]
      rfl

end RegexReader

namespace Lexer

open Spelling

theorem isPlain_of_le {b : UInt8} (h : 0x80 ≤ b) : isPlain b = true := by
  simp [isPlain, h]

theorem isAlphanumeric_of_le {b : UInt8} (h : 0x80 ≤ b) : isAlphanumeric b = false := by
  unfold isAlphanumeric
  grind

-- Only of ASCII characters it matters whether they are escaped.
theorem spells_encode (code : Nat) :
    Spells (if isLetter code || isDigit code || code = 0x5F then Utf8.encode code
      else 0x5C :: Utf8.encode code) (Utf8.encode code) := by
  by_cases hascii : code < 0x80
  · have hplain : ∀ code < 0x80, (isLetter code || isDigit code || code = 0x5F) = true →
        isPlain (UInt8.ofNat code) = true := by decide
    have hescaped : ∀ code < 0x80, ¬(isLetter code || isDigit code || code = 0x5F) = true →
        isAlphanumeric (UInt8.ofNat code) = false := by decide
    rw [Utf8.encode_of_lt_80 hascii]
    split_ifs with h
    · exact .cons (.plain (hplain code hascii h)) .nil
    · exact .cons (.escaped (hescaped code hascii h)) .nil
  · have hhigh : ∀ b ∈ Utf8.encode code, 0x80 ≤ b := fun b hb =>
      Utf8.le_of_mem_encode (Nat.le_of_not_lt hascii) hb
    split_ifs
    · exact spells_of_isPlain fun b hb => isPlain_of_le (hhigh b hb)
    · obtain ⟨b, rest, heq⟩ := List.exists_cons_of_ne_nil (Utf8.encode_ne_nil code)
      rw [heq] at hhigh ⊢
      obtain ⟨hb, hrest⟩ := List.forall_mem_cons.mp hhigh
      exact .cons (.escaped (isAlphanumeric_of_le hb))
        (spells_of_isPlain fun b hb => isPlain_of_le (hrest b hb))

variable {name : Text}

theorem spells_literalRegex (hvalid : Utf8.isValid name = true) :
    Spells (literalRegex name) name := by
  have hspells : Spells (literalRegex name) ((Utf8.characters name).flatMap (·.bytes)) := by
    refine Spells.flatMap fun c hc => ?_
    obtain ⟨b, rest, rfl⟩ := Utf8.exists_decode_of_mem hc
    rw [← Utf8.encode_decode (List.all_eq_true.mp hvalid _ hc)]
    exact spells_encode _
  rwa [Utf8.bytesOf_characters] at hspells

-- Whatever else can be written in expressions, the one for a literal matches the literal only.
theorem literalRegex_exact {means : Meaning} (hmeans : IsLiteral means) (hne : name ≠ [])
    (hvalid : Utf8.isValid name = true) (t : Text) : means (literalRegex name) t ↔ t = name :=
  (spells_literalRegex hvalid).means_iff hmeans hne t

theorem literalRegex_assignment :
    IsLiteral RegexReader.Means ∧ text "é_€:=" ≠ [] ∧ Utf8.isValid (text "é_€:=") = true ∧
      ∀ t, RegexReader.Means (text "é_\\€\\:\\=") t ↔ t = text "é_€:=" := by
  have hregex : literalRegex (text "é_€:=") = text "é_\\€\\:\\=" := by decide +kernel
  refine ⟨RegexReader.isLiteral_means, by decide, by decide, fun t => ?_⟩
  rw [← hregex]
  exact literalRegex_exact RegexReader.isLiteral_means (by decide) (by decide) t

end Lexer

end Lookahead
