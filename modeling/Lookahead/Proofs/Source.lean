import Lookahead.Source
import Mathlib.Data.List.TakeWhile

/-!
What lists of tokens deliver: the tokens before the end of input, and then the end of input for
ever.
-/

namespace Lookahead

-- The tokens from one position up to another one.
def slice (tokens : Nat → Token) (p q : Nat) : List Token := (List.range' p (q - p)).map tokens

theorem slice_self (tokens : Nat → Token) (p : Nat) : slice tokens p p = [] := by
  rw [slice, Nat.sub_self]
  rfl

theorem slice_eq_cons (tokens : Nat → Token) {p q : Nat} (h : p < q) :
    slice tokens p q = tokens p :: slice tokens (p + 1) q := by
  rw [slice, slice, show q - p = q - (p + 1) + 1 by omega, List.range'_succ, List.map_cons]

theorem slice_append (tokens : Nat → Token) {p m q : Nat} (hp : p ≤ m) (hm : m ≤ q) :
    slice tokens p m ++ slice tokens m q = slice tokens p q := by
  have h := List.range'_append_1 (s := p) (m := m - p) (n := q - m)
  rw [show p + (m - p) = m by omega, show m - p + (q - m) = q - p by omega] at h
  rw [slice, slice, slice, ← List.map_append, h]

theorem length_slice (tokens : Nat → Token) (p q : Nat) : (slice tokens p q).length = q - p := by
  simp [slice]

-- Two lists that make up a slice meet at some position.
theorem slice_split {tokens : Nat → Token} {p q : Nat} {a b : List (Option Token)}
    (h : a ++ b = (slice tokens p q).map some) (hpq : p ≤ q) :
    p + a.length ≤ q ∧ a = (slice tokens p (p + a.length)).map some ∧
      b = (slice tokens (p + a.length) q).map some := by
  have hlength := congrArg List.length h
  rw [List.length_append, List.length_map, length_slice] at hlength
  have hle : p + a.length ≤ q := by omega
  rw [← slice_append tokens (Nat.le_add_right p a.length) hle, List.map_append] at h
  obtain ⟨ha, hb⟩ := List.append_inj h (by rw [List.length_map, length_slice]; omega)
  exact ⟨hle, ha, hb⟩

namespace TokenList

variable {tokens : List Token} {i : Nat}

-- The first token behind the ones before the end of input is one for the end of input.
theorem type_of_getElem?_length {t : Token} (h : tokens[(body tokens).length]? = some t) :
    t.type = TokenType.endOfInput := by
  induction tokens with
  | nil => cases h
  | cons token tokens ih =>
      by_cases ht : token.type = TokenType.endOfInput
      · have hbody : body (token :: tokens) = [] := by simp [body, ht]
        rw [hbody] at h
        exact Option.some.inj h ▸ ht
      · have hbody : body (token :: tokens) = token :: body tokens := by simp [body, ht]
        rw [hbody] at h
        exact ih h

theorem type_last (tokens : List Token) : (last tokens).type = TokenType.endOfInput := by
  unfold last
  cases h : tokens[(body tokens).length]? with
  | none => rfl
  | some t => exact type_of_getElem?_length h

theorem type_pull_of_le (h : (body tokens).length ≤ i) :
    (pull tokens i).type = TokenType.endOfInput := by
  rw [pull, List.getElem?_eq_none h]
  exact type_last tokens

theorem body_eq_self (h : ∀ t ∈ tokens, t.type ≠ TokenType.endOfInput) : body tokens = tokens := by
  apply List.takeWhile_eq_self_iff.mpr
  simpa using h

theorem type_ne_of_mem_body {token : Token} (h : token ∈ body tokens) :
    token.type ≠ TokenType.endOfInput := by
  simpa using List.all_eq_true.mp List.all_takeWhile token h

theorem take_body (hi : i ≤ (body tokens).length) : (body tokens).take i = tokens.take i := by
  obtain ⟨rest, hrest⟩ : ∃ rest, body tokens ++ rest = tokens := List.takeWhile_prefix _
  rw [← List.take_append_of_le_length hi, hrest]

-- What is delivered before the end of input are the first tokens of the list, none of which is for
-- the end of input.
theorem slice_pull_body (hi : i ≤ (body tokens).length) :
    slice (pull tokens) 0 i = tokens.take i := by
  rw [← take_body hi]
  apply List.ext_getElem
  · simp [slice, hi]
  · intro j _ hj
    have hlt : j < (body tokens).length := by
      rw [List.length_take] at hj
      omega
    simp [slice, pull, hlt]

theorem slice_pull_take (h : ∀ t ∈ tokens, t.type ≠ TokenType.endOfInput)
    (hi : i ≤ tokens.length) : slice (pull tokens) 0 i = tokens.take i :=
  slice_pull_body (by rwa [body_eq_self h])

theorem slice_pull (h : ∀ t ∈ tokens, t.type ≠ TokenType.endOfInput) :
    slice (pull tokens) 0 tokens.length = tokens := by
  rw [slice_pull_take h (Nat.le_refl _), List.take_length]

-- Lists with a common beginning deliver the same tokens as far as it goes.
theorem pull_append_of_lt {front rest : List Token}
    (h : ∀ t ∈ front ++ rest, t.type ≠ TokenType.endOfInput) (hi : i < front.length) :
    pull (front ++ rest) i = front[i] := by
  rw [pull, body_eq_self h, List.getElem?_append_left hi, List.getElem?_eq_getElem hi]
  rfl

end TokenList

end Lookahead
