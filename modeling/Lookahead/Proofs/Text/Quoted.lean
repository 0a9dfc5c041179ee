import Lookahead.Proofs.Text.Utf8
import Lookahead.Text.Quoted
import Mathlib.Data.List.Basic

/-!
What is read between quotes. A character or an escape sequence stands for one byte at least, so
that nothing but an empty pair of quotes is read as an empty text. Carriage returns in a raw string
count for nothing.
-/

namespace Lookahead

namespace Quoted

variable {quotation b : UInt8} {bytes rest t : Text} {n : Nat}

theorem readEscape_scalar_ne_nil {digits : Nat}
    (h : readEscape.scalar digits rest = some (bytes, n)) : bytes ≠ [] := by
  unfold readEscape.scalar at h
  split at h
  · split_ifs at h
    cases h
    exact Utf8.encode_ne_nil _
  · cases h

theorem readEscape_ne_nil (h : readEscape quotation rest = some (bytes, n)) : bytes ≠ [] := by
  cases rest with
  | nil => cases h
  | cons c rest =>
      rw [readEscape] at h
      split at h
      · cases h
        exact List.cons_ne_nil _ _
      · split_ifs at h
        · cases h
          exact List.cons_ne_nil _ _
        · obtain ⟨v, -, hv⟩ := Option.map_eq_some_iff.mp h
          cases hv
          exact List.cons_ne_nil _ _
        · exact readEscape_scalar_ne_nil h
        · exact readEscape_scalar_ne_nil h
        · dsimp only at h
          split_ifs at h
          cases h
          exact List.cons_ne_nil _ _

theorem readCharacter_ne_nil (h : readCharacter quotation b rest = some (bytes, n)) :
    bytes ≠ [] := by
  unfold readCharacter at h
  split_ifs at h
  · obtain ⟨⟨bytes', n'⟩, hread, heq⟩ := Option.map_eq_some_iff.mp h
    cases heq
    exact readEscape_ne_nil hread
  · cases h
    exact Utf8.encode_ne_nil _

theorem eq_of_readSingle (h : readSingle t = some []) : t = [singleQuote] := by
  cases t with
  | nil => cases h
  | cons b rest =>
      rw [readSingle] at h
      split_ifs at h with hb hrest
      · rw [hb, List.isEmpty_iff.mp hrest]
      · split at h
        · cases h
        · next bytes n hread =>
          split_ifs at h
          cases h
          exact absurd rfl (readCharacter_ne_nil hread)

theorem readSingle_eq_nil_iff : readSingle t = some [] ↔ t = [singleQuote] := by
  refine ⟨eq_of_readSingle, ?_⟩
  rintro rfl
  rfl

theorem readString_eq_nil_iff : readString 0 t = some [] ↔ t = [doubleQuote] := by
  constructor
  · intro h
    cases t with
    | nil => cases h
    | cons b rest =>
        rw [readString] at h
        split_ifs at h with hb hrest
        · rw [hb, List.isEmpty_iff.mp hrest]
        · split at h
          · cases h
          · next bytes n hread =>
            obtain ⟨more, -, heq⟩ := Option.map_eq_some_iff.mp h
            exact absurd (List.append_eq_nil_iff.mp heq).1 (readCharacter_ne_nil hread)
  · rintro rfl
    rfl

theorem readRaw_eq_nil_iff :
    readRaw t = some [] ↔ ∃ n, t = List.replicate n carriageReturn ++ [backquote] := by
  constructor
  · intro h
    unfold readRaw at h
    split at h
    · cases h
    · next last body hreverse =>
      split_ifs at h with hquote
      simp only [Bool.and_eq_true, decide_eq_true_eq] at hquote
      have hbody : body = List.replicate body.length carriageReturn := by
        refine List.eq_replicate_of_mem fun b hb => ?_
        have hnone := List.filter_eq_nil_iff.mp (Option.some.inj h) b (List.mem_reverse.mpr hb)
        simpa using hnone
      refine ⟨body.length, ?_⟩
      rw [← List.reverse_reverse t, hreverse, hquote.1, List.reverse_cons, hbody,
        List.reverse_replicate, List.length_replicate]
  · rintro ⟨n, rfl⟩
    have hnone : backquote ∉ List.replicate n carriageReturn := by
      simp [backquote, carriageReturn]
    simp [readRaw, hnone]

-- A pair of quotes with nothing between them that counts.
inductive IsEmptyQuotation : Text → Prop
  | single : IsEmptyQuotation [singleQuote, singleQuote]
  | double : IsEmptyQuotation [doubleQuote, doubleQuote]
  | raw (n : Nat) :
      IsEmptyQuotation (backquote :: (List.replicate n carriageReturn ++ [backquote]))

theorem unquote_eq_nil_iff : unquote t = some [] ↔ IsEmptyQuotation t := by
  constructor
  · intro h
    cases t with
    | nil => cases h
    | cons b rest =>
        rw [unquote] at h
        split_ifs at h with hdouble hsingle hraw
        · rw [hdouble, readString_eq_nil_iff.mp h]
          exact .double
        · rw [hsingle, readSingle_eq_nil_iff.mp h]
          exact .single
        · obtain ⟨n, rfl⟩ := readRaw_eq_nil_iff.mp h
          rw [hraw]
          exact .raw n
  · rintro (_ | _ | n)
    · rfl
    · rfl
    · exact readRaw_eq_nil_iff.mpr ⟨n, rfl⟩

end Quoted

end Lookahead
