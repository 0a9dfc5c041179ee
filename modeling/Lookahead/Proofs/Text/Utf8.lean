import Lookahead.Text.Utf8
import Mathlib.Data.List.Basic

/-!
Characters and their bytes. The characters of a text have its bytes, in their order, and the bytes
of a well-formed character are those that are written for its code point.
-/

namespace Lookahead

namespace Utf8

variable {b : UInt8} {rest : Text}

-- The ways in which a character may be read.
theorem decode_cases (b : UInt8) (rest : Text) :
    (b < 0x80 ∧ decode b rest = ⟨b.toNat, [b], true⟩) ∨
      (¬b < 0x80 ∧ decode b rest = malformed b) ∨
      ∃ n low high c cs, tails b = some (n, low, high) ∧ rest.take n = c :: cs ∧
        low ≤ c ∧ c ≤ high ∧ (∀ t ∈ cs, isTail t = true) ∧ cs.length + 1 = n ∧
        decode b rest = ⟨(c :: cs).foldl (fun code t => code * 64 + t.toNat % 64) (leadBits n b),
          b :: c :: cs, true⟩ := by
  unfold decode
  by_cases hb : b < 0x80
  · exact .inl ⟨hb, if_pos hb⟩
  · rw [if_neg hb]
    cases ht : tails b with
    | none => exact .inr (.inl ⟨hb, rfl⟩)
    | some t =>
        obtain ⟨n, low, high⟩ := t
        cases hr : rest.take n with
        | nil => exact .inr (.inl ⟨hb, by simp [hr]⟩)
        | cons c cs =>
            by_cases h : low ≤ c ∧ c ≤ high ∧ cs.all isTail = true ∧ cs.length + 1 = n
            · obtain ⟨hlow, hhigh, hall, hlength⟩ := h
              refine .inr (.inr ⟨n, low, high, c, cs, rfl, hr, hlow, hhigh, ?_, hlength, ?_⟩)
              · exact List.all_eq_true.mp hall
              · simp [hr, hlow, hhigh, hall, hlength]
            · refine .inr (.inl ⟨hb, ?_⟩)
              have hcond : (decide (low ≤ c) && decide (c ≤ high) && cs.all isTail &&
                  decide (cs.length + 1 = n)) = false := by
                rw [← Bool.not_eq_true]
                simpa [and_assoc] using h
              simp [hr, hcond]

-- A character takes its bytes from the front of the text.
theorem decode_append (b : UInt8) (rest : Text) :
    (decode b rest).bytes ++ rest.drop ((decode b rest).bytes.length - 1) = b :: rest := by
  rcases decode_cases b rest with ⟨-, h⟩ | ⟨-, h⟩ | ⟨n, -, -, c, cs, -, hr, -, -, -, hlength, h⟩
  · simp [h]
  · simp [h, malformed]
  · simp only [h, List.length_cons, List.cons_append, Nat.add_sub_cancel, hlength]
    rw [← List.cons_append, ← hr, List.take_append_drop]

theorem bytesOf_charactersFrom (skip : Nat) (t : Text) :
    (charactersFrom skip t).flatMap (·.bytes) = t.drop skip := by
  induction t generalizing skip with
  | nil => cases skip <;> simp [charactersFrom]
  | cons b rest ih =>
      cases skip with
      | zero => rw [charactersFrom, List.flatMap_cons, ih, decode_append, List.drop_zero]
      | succ skip => rw [charactersFrom, ih, List.drop_succ_cons]

theorem bytesOf_characters (t : Text) : (characters t).flatMap (·.bytes) = t :=
  bytesOf_charactersFrom 0 t

-- Every character of a text has been decoded somewhere.
theorem exists_decode_of_mem {skip : Nat} {t : Text} {c : Character}
    (h : c ∈ charactersFrom skip t) : ∃ b rest, c = decode b rest := by
  induction t generalizing skip with
  | nil => cases skip <;> simp [charactersFrom] at h
  | cons b rest ih =>
      cases skip with
      | zero =>
          rw [charactersFrom] at h
          rcases List.mem_cons.mp h with rfl | h
          · exact ⟨b, rest, rfl⟩
          · exact ih h
      | succ skip =>
          rw [charactersFrom] at h
          exact ih h

theorem tails_cases {n : Nat} {low high : UInt8} (h : tails b = some (n, low, high)) :
    (n = 1 ∧ 0xC2 ≤ b.toNat ∧ b.toNat ≤ 0xDF ∧ 0x80 ≤ low.toNat ∧ high.toNat ≤ 0xBF) ∨
      (n = 2 ∧ 0xE0 ≤ b.toNat ∧ b.toNat ≤ 0xEF ∧ 0x80 ≤ low.toNat ∧ high.toNat ≤ 0xBF ∧
        (b.toNat = 0xE0 → 0xA0 ≤ low.toNat) ∧ (b.toNat = 0xED → high.toNat ≤ 0x9F)) ∨
      (n = 3 ∧ 0xF0 ≤ b.toNat ∧ b.toNat ≤ 0xF4 ∧ 0x80 ≤ low.toNat ∧ high.toNat ≤ 0xBF ∧
        (b.toNat = 0xF0 → 0x90 ≤ low.toNat) ∧ (b.toNat = 0xF4 → high.toNat ≤ 0x8F)) := by
  unfold tails at h
  simp only [Bool.and_eq_true, decide_eq_true_eq, UInt8.le_iff_toNat_le, ← UInt8.toNat_inj] at h
  split_ifs at h <;> cases h <;> simp at * <;> omega

theorem toNat_of_isTail (h : isTail b = true) : 0x80 ≤ b.toNat ∧ b.toNat ≤ 0xBF := by
  simpa [isTail, UInt8.le_iff_toNat_le] using h

theorem ofNat_eq {n : Nat} (h : n = b.toNat) : UInt8.ofNat n = b := by
  rw [h, UInt8.ofNat_toNat]

theorem encode_of_lt_800 {code : Nat} (h : 0x80 ≤ code) (h' : code < 0x800) :
    encode code = [UInt8.ofNat (0xC0 + code / 64), UInt8.ofNat (0x80 + code % 64)] := by
  rw [encode, if_neg (by omega), if_pos h']
  show [_, UInt8.ofNat (0x80 + code / 1 % 64)] = _
  rw [Nat.div_one]

theorem encode_of_lt_10000 {code : Nat} (h : 0x800 ≤ code) (h' : code < 0x10000)
    (hs : isScalar code = true) :
    encode code = [UInt8.ofNat (0xE0 + code / 4096), UInt8.ofNat (0x80 + code / 64 % 64),
      UInt8.ofNat (0x80 + code % 64)] := by
  rw [encode, if_neg (by omega), if_neg (by omega), hs, if_neg (by decide), if_pos h']
  show [_, UInt8.ofNat (0x80 + code / 64 % 64), UInt8.ofNat (0x80 + code / 1 % 64)] = _
  rw [Nat.div_one]

theorem encode_of_ge_10000 {code : Nat} (h : 0x10000 ≤ code) (hs : isScalar code = true) :
    encode code = [UInt8.ofNat (0xF0 + code / 262144), UInt8.ofNat (0x80 + code / 4096 % 64),
      UInt8.ofNat (0x80 + code / 64 % 64), UInt8.ofNat (0x80 + code % 64)] := by
  rw [encode, if_neg (by omega), if_neg (by omega), hs, if_neg (by decide), if_neg (by omega)]
  show [_, UInt8.ofNat (0x80 + code / 4096 % 64), UInt8.ofNat (0x80 + code / 64 % 64),
    UInt8.ofNat (0x80 + code / 1 % 64)] = _
  rw [Nat.div_one]

theorem encode_decode (h : (decode b rest).wellFormed = true) :
    encode (decode b rest).code = (decode b rest).bytes := by
  rcases decode_cases b rest with ⟨hb, hd⟩ | ⟨-, hd⟩ |
    ⟨n, low, high, c, cs, ht, -, hlow, hhigh, hall, hlength, hd⟩
  · have hlt : b.toNat < 0x80 := UInt8.lt_iff_toNat_lt.mp hb
    rw [hd]
    simp [encode, hlt]
  · simp [hd, malformed] at h
  · rw [hd]
    rw [UInt8.le_iff_toNat_le] at hlow hhigh
    rcases tails_cases ht with ⟨rfl, hb⟩ | ⟨rfl, hb⟩ | ⟨rfl, hb⟩
    · obtain rfl : cs = [] := List.length_eq_zero_iff.mp (by omega)
      show encode (b.toNat % 32 * 64 + c.toNat % 64) = _
      rw [encode_of_lt_800 (by omega) (by omega), ofNat_eq (b := b) (by omega),
        ofNat_eq (b := c) (by omega)]
    · obtain ⟨d, rfl⟩ := List.length_eq_one_iff.mp (show cs.length = 1 by omega)
      have hd := toNat_of_isTail (hall d (by simp))
      show encode ((b.toNat % 16 * 64 + c.toNat % 64) * 64 + d.toNat % 64) = _
      rw [encode_of_lt_10000 (by omega) (by omega) (by simp [isScalar]; omega),
        ofNat_eq (b := b) (by omega), ofNat_eq (b := c) (by omega), ofNat_eq (b := d) (by omega)]
    · obtain ⟨d, e, rfl⟩ := List.length_eq_two.mp (show cs.length = 2 by omega)
      have hd := toNat_of_isTail (hall d (by simp))
      have he := toNat_of_isTail (hall e (by simp))
      show encode (((b.toNat % 8 * 64 + c.toNat % 64) * 64 + d.toNat % 64) * 64 + e.toNat % 64) = _
      rw [encode_of_ge_10000 (by omega) (by simp [isScalar]; omega), ofNat_eq (b := b) (by omega),
        ofNat_eq (b := c) (by omega), ofNat_eq (b := d) (by omega), ofNat_eq (b := e) (by omega)]

-- Code points below 128 are written as they are, all others with higher bytes only.
theorem encode_of_lt_80 {code : Nat} (h : code < 0x80) : encode code = [UInt8.ofNat code] := by
  rw [encode, if_pos h]

theorem le_ofNat {n : Nat} (h : 0x80 ≤ n) (h' : n < 0x100) : 0x80 ≤ UInt8.ofNat n := by
  rw [UInt8.le_iff_toNat_le, UInt8.toNat_ofNat_of_lt' h']
  exact h

theorem le_of_mem_encode {code : Nat} (h : 0x80 ≤ code) (hb : b ∈ encode code) : 0x80 ≤ b := by
  by_cases h₂ : code < 0x800
  · rw [encode_of_lt_800 h h₂] at hb
    simp only [List.mem_cons, List.not_mem_nil, or_false] at hb
    rcases hb with rfl | rfl <;> exact le_ofNat (by omega) (by omega)
  cases hs : isScalar code with
  | false =>
      rw [encode, if_neg (by omega), if_neg h₂, hs, if_pos (by decide)] at hb
      replace hb : b ∈ [0xEF, 0xBF, 0xBD] := hb
      simp only [List.mem_cons, List.not_mem_nil, or_false] at hb
      rcases hb with rfl | rfl | rfl <;> decide
  | true =>
      have hmax : code ≤ 0x10FFFF := by simp [isScalar] at hs; omega
      by_cases h₃ : code < 0x10000
      · rw [encode_of_lt_10000 (by omega) h₃ hs] at hb
        simp only [List.mem_cons, List.not_mem_nil, or_false] at hb
        rcases hb with rfl | rfl | rfl <;> exact le_ofNat (by omega) (by omega)
      · rw [encode_of_ge_10000 (by omega) hs] at hb
        simp only [List.mem_cons, List.not_mem_nil, or_false] at hb
        rcases hb with rfl | rfl | rfl | rfl <;> exact le_ofNat (by omega) (by omega)

theorem encode_ne_nil (code : Nat) : encode code ≠ [] := by
  unfold encode
  split_ifs <;> simp

end Utf8

end Lookahead
