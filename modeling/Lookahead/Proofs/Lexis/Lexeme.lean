import Lookahead.Lexis.Number
import Lookahead.Lexis.Quotation
import Lookahead.Proofs.Lexis.Glyph

/-!
Where numerals and quoted literals end: some glyphs behind the place where they begin.
-/

namespace Lookahead

open Cursor

namespace NumberScan

variable {place : Text} {base : Nat} {mark : Mark} {c : Cursor} {d : Digits}

theorem ahead_digits_suffix : (digits place base c d).1.ahead <:+ c.ahead := by
  have hfrom : ∀ glyphs log d, (digitsFrom place base glyphs log d).1.ahead <:+ glyphs := by
    intro glyphs
    induction glyphs with
    | nil => exact fun _ _ => List.suffix_rfl
    | cons g glyphs ih =>
        intro log d
        rw [digitsFrom]
        split
        · exact (ih _ _).trans (List.suffix_cons g glyphs)
        · split
          · exact (ih _ _).trans (List.suffix_cons g glyphs)
          · exact List.suffix_rfl
  exact hfrom c.ahead c.log d

-- A decimal digit is taken at least.
theorem ahead_digits_suffix_tail (h : c.isAt (·.isDecimal) = true) :
    (digits place base c d).1.ahead <:+ c.ahead.tail := by
  obtain ⟨ahead, log⟩ := c
  cases ahead with
  | nil => exact List.suffix_rfl
  | cons g glyphs =>
      have hg : g.isDecimal = true := by simpa [isAt] using h
      rw [digits, digitsFrom]
      split
      · exact ahead_digits_suffix (c := ⟨glyphs, _⟩)
      · rw [if_pos (by simp [hg])]
        exact ahead_digits_suffix (c := ⟨glyphs, _⟩)

theorem ahead_start_suffix_tail (h : c.isAt (·.code = 0x30) = true) :
    (start place c).2.1.ahead <:+ c.ahead.tail := by
  unfold start
  dsimp only
  rw [if_pos h]
  split_ifs
  · exact List.tail_suffix _
  · exact List.tail_suffix _
  · exact List.tail_suffix _
  · exact List.suffix_rfl

theorem start_eq (h : ¬c.isAt (·.code = 0x30) = true) : start place c = (.none, c, .none) :=
  if_neg h

theorem ahead_fraction_suffix : (fraction place mark c d).1.ahead <:+ c.ahead := by
  unfold fraction
  refine ahead_digits_suffix.trans ?_
  simp only [ahead_ite_complain, List.suffix_rfl]

theorem ahead_exponent_suffix : (exponent place mark c d).1.ahead <:+ c.ahead := by
  unfold exponent
  dsimp only
  rw [ahead_ite_not_complain]
  refine ahead_digits_suffix.trans (ahead_ite_advance_suffix.trans ?_)
  simp only [ahead_advance, apply_ite Cursor.ahead, ahead_complain, ite_self]
  exact List.tail_suffix c.ahead

-- The digits in front of a point.
theorem ahead_integral_suffix (place : Text) (h : c.isAt (·.isDecimal) = true) :
    (digits place (start place c).1.base (start place c).2.1 (start place c).2.2).1.ahead
      <:+ c.ahead.tail := by
  by_cases hzero : c.isAt (·.code = 0x30) = true
  · exact ahead_digits_suffix.trans (ahead_start_suffix_tail hzero)
  · rw [start_eq hzero]
    exact ahead_digits_suffix_tail h

variable {token behind : List Glyph} {sawPoint : Bool}

-- A numeral reaches at least as far as its first digits, or its point.
theorem ahead_scan_suffix (hpoint : sawPoint = true → c.ahead <:+ behind)
    (hdigits : sawPoint = false → c.isAt (·.isDecimal) = true ∧ c.ahead.tail = behind) :
    (scan place token c sawPoint).2.ahead <:+ behind := by
  unfold scan
  split
  next mark c₁ d₁ hstart =>
  split
  next c₂ d₂ hfirst =>
  extract_lets isPoint c₃
  split
  next c₄ d₄ hfraction =>
  extract_lets c₅ hasExponent isInteger
  split
  next c₆ d₆ hexponent =>
  extract_lets c₇ c₈
  have h₂ : c₂.ahead <:+ behind := by
    cases sawPoint with
    | true =>
        obtain ⟨-, rfl, rfl⟩ : Mark.none = mark ∧ c = c₁ ∧ Digits.none = d₁ := by
          simpa using hstart
        obtain ⟨rfl, -⟩ : c = c₂ ∧ Digits.none = d₂ := by simpa using hfirst
        exact hpoint rfl
    | false =>
        obtain ⟨hdecimal, htail⟩ := hdigits rfl
        have hstart : start place c = (mark, c₁, d₁) := hstart
        have hfirst : digits place mark.base c₁ d₁ = (c₂, d₂) := hfirst
        have h := ahead_integral_suffix place hdecimal
        rw [hstart, hfirst, htail] at h
        exact h
  have h₃ : c₃.ahead <:+ c₂.ahead := ahead_ite_advance_suffix
  have h₄ : c₄.ahead <:+ c₃.ahead := by
    rw [show c₄ = (c₄, d₄).1 from rfl, ← hfraction]
    split
    · exact ahead_fraction_suffix
    · exact List.suffix_rfl
  have h₅ : c₅.ahead = c₄.ahead := ahead_ite_not_complain _
  have h₆ : c₆.ahead <:+ c₅.ahead := by
    rw [show c₆ = (c₆, d₆).1 from rfl, ← hexponent]
    split_ifs
    · exact ahead_exponent_suffix
    · exact List.suffix_rfl
    · exact List.suffix_rfl
  have h₇ : c₇.ahead = c₆.ahead := by
    dsimp only [c₇]
    split <;> rfl
  have h₈ : c₈.ahead = c₇.ahead := ahead_ite_complain _
  show c₈.ahead <:+ behind
  rw [h₈, h₇]
  exact h₆.trans (h₅ ▸ h₄.trans (h₃.trans h₂))

theorem scan_type : (scan place token c sawPoint).1 ∈ [TokenType.integer, TokenType.real] := by
  unfold scan
  split
  split
  extract_lets
  split
  extract_lets
  split
  extract_lets
  dsimp only
  split_ifs <;> decide

end NumberScan

namespace QuotationScan

variable {place : Text} {quotation : Nat} {c : Cursor}

theorem ahead_bodyFrom_suffix (mode : Mode) (count : Nat) (glyphs : List Glyph)
    (log : List Text) : (bodyFrom place quotation mode count glyphs log).1.ahead <:+ glyphs := by
  induction glyphs generalizing mode count log with
  | nil => exact List.suffix_rfl
  | cons g glyphs ih =>
      have hrest : ∀ mode count log,
          (bodyFrom place quotation mode count glyphs log).1.ahead <:+ g :: glyphs :=
        fun mode count log => (ih mode count log).trans (List.suffix_cons g glyphs)
      rw [bodyFrom]
      split
      next expected left message _ =>
      extract_lets log count sighted
      cases expected with
      | plain =>
          dsimp only
          split_ifs
          · exact List.suffix_rfl
          · exact List.suffix_rfl
          · exact hrest _ _ _
          · exact hrest _ _ _
      | escape =>
          dsimp only
          split
          · exact hrest _ _ _
          · exact hrest _ _ _
      | digits base more => exact hrest _ _ _

theorem ahead_scan_suffix : (scan place quotation c).1.ahead <:+ c.ahead.tail :=
  ahead_bodyFrom_suffix .plain 0 c.ahead.tail _

-- An opening quote is taken at least.
theorem ahead_string_suffix : (string place c).ahead <:+ c.ahead.tail :=
  (List.tail_suffix _).trans ahead_scan_suffix

theorem ahead_character_suffix : (character place c).ahead <:+ c.ahead.tail := by
  unfold character
  rw [ahead_advance, ahead_ite_not_complain]
  exact (List.tail_suffix _).trans ahead_scan_suffix

theorem ahead_rawString_suffix : (rawString place c).ahead <:+ c.ahead.tail := by
  unfold rawString
  dsimp only
  rw [ahead_advance, ahead_ite_complain]
  exact (List.tail_suffix _).trans ahead_skipWhile_suffix

end QuotationScan

end Lookahead
