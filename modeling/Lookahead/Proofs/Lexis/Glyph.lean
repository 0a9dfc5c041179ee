import Lookahead.Lexis.Glyph
import Lookahead.Proofs.Text.Utf8

/-!
Glyphs of well-formed texts: they have the bytes of the text, and each stands where the bytes in
front of it end. A cursor that moves takes some of the glyphs ahead and leaves the others.
-/

namespace Lookahead

namespace Glyph

variable {offset line column : Nat} {g : Glyph} {glyphs taken rest : List Glyph}

def bytesOf (glyphs : List Glyph) : Text := glyphs.flatMap (·.bytes)

@[simp] theorem bytesOf_nil : bytesOf [] = [] := rfl

@[simp] theorem bytesOf_cons (g : Glyph) (glyphs : List Glyph) :
    bytesOf (g :: glyphs) = g.bytes ++ bytesOf glyphs := rfl

@[simp] theorem bytesOf_append (glyphs more : List Glyph) :
    bytesOf (glyphs ++ more) = bytesOf glyphs ++ bytesOf more := List.flatMap_append

-- Glyphs from an offset on, one behind the other, each with the bytes of its code point.
inductive Laid : (offset : Nat) → List Glyph → Prop
  | nil {offset : Nat} : Laid offset []
  | cons {g : Glyph} {glyphs : List Glyph} (hbytes : g.bytes = Utf8.encode g.code)
      (h : Laid (g.offset + g.bytes.length) glyphs) : Laid g.offset (g :: glyphs)

theorem bytesOf_locate (offset line column : Nat) (cs : List Character) :
    bytesOf (locate offset line column cs) = cs.flatMap (·.bytes) := by
  induction cs generalizing offset line column with
  | nil => rfl
  | cons c cs ih =>
      rw [locate, List.flatMap_cons, bytesOf_cons]
      split <;> rw [ih]

theorem laid_locate (offset line column : Nat) {cs : List Character}
    (h : ∀ c ∈ cs, c.bytes = Utf8.encode c.code) : Laid offset (locate offset line column cs) := by
  induction cs generalizing offset line column with
  | nil => exact .nil
  | cons c cs ih =>
      obtain ⟨hc, hcs⟩ := List.forall_mem_cons.mp h
      rw [locate]
      refine .cons (g := ⟨c.code, c.bytes, c.wellFormed, offset, line, column⟩) hc ?_
      split <;> exact ih _ _ _ hcs

theorem bytesOf_ofText (t : Text) : bytesOf (ofText t) = t := by
  rw [ofText, bytesOf_locate, Utf8.bytesOf_characters]

theorem laid_ofText {t : Text} (h : Utf8.isValid t = true) : Laid 0 (ofText t) := by
  apply laid_locate
  intro c hc
  have hwell : c.wellFormed = true := List.all_eq_true.mp h c hc
  obtain ⟨b, rest, rfl⟩ := Utf8.exists_decode_of_mem hc
  exact (Utf8.encode_decode hwell).symm

-- Bytes below 128 stand for themselves and are no part of other glyphs.
theorem bytes_eq_singleton (hwritten : g.bytes = Utf8.encode g.code) (hlt : g.code < 0x80) :
    g.bytes = [UInt8.ofNat g.code] :=
  hwritten.trans (Utf8.encode_of_lt_80 hlt)

theorem code_eq_of_mem {b : UInt8} (hwritten : g.bytes = Utf8.encode g.code) (hb : b ∈ g.bytes)
    (hlt : b < 0x80) : g.code = b.toNat := by
  by_cases hcode : g.code < 0x80
  · rw [bytes_eq_singleton hwritten hcode, List.mem_singleton] at hb
    rw [hb, UInt8.toNat_ofNat_of_lt' (Nat.lt_trans hcode (by decide))]
  · rw [hwritten] at hb
    exact absurd hlt (UInt8.not_lt.mpr (Utf8.le_of_mem_encode (Nat.not_lt.mp hcode) hb))

namespace Laid

theorem written (h : Laid offset glyphs) : ∀ g ∈ glyphs, g.bytes = Utf8.encode g.code := by
  induction h with
  | nil => exact List.forall_mem_nil _
  | cons hbytes _ ih => exact List.forall_mem_cons.mpr ⟨hbytes, ih⟩

theorem append (h : Laid offset (taken ++ rest)) :
    Laid (offset + (bytesOf taken).length) rest := by
  induction taken generalizing offset with
  | nil => exact h
  | cons g taken ih =>
      cases h with
      | cons _ h =>
          rw [bytesOf_cons, List.length_append, ← Nat.add_assoc]
          exact ih h

theorem offset_eq (h : Laid offset (g :: glyphs)) : g.offset = offset := by
  cases h with
  | cons _ _ => rfl

theorem bytes_eq (h : Laid offset (g :: glyphs)) : g.bytes = Utf8.encode g.code :=
  h.written g List.mem_cons_self

theorem bytes_ne_nil (h : Laid offset (g :: glyphs)) : g.bytes ≠ [] :=
  h.bytes_eq ▸ Utf8.encode_ne_nil g.code

theorem offset_lt (h : Laid offset (taken ++ rest)) (hg : g ∈ taken) :
    g.offset < offset + (bytesOf taken).length := by
  induction taken generalizing offset with
  | nil => cases hg
  | cons x taken ih =>
      rw [bytesOf_cons, List.length_append]
      rcases List.mem_cons.mp hg with rfl | hg
      · have hpos := List.length_pos_iff.mpr h.bytes_ne_nil
        have hoffset := h.offset_eq
        omega
      · cases h with
        | cons _ h =>
            have hlt := ih h hg
            omega

-- The text up to a rest is what has been taken.
theorem textUpTo_eq (h : Laid offset (taken ++ rest)) :
    textUpTo (taken ++ rest) rest = bytesOf taken := by
  cases rest with
  | nil => rw [List.append_nil]; rfl
  | cons g rest =>
      have hoffset := h.append.offset_eq
      have htake : (taken ++ g :: rest).takeWhile (·.offset < g.offset) = taken := by
        rw [List.takeWhile_append_of_pos]
        · simp
        · intro x hx
          rw [hoffset]
          exact decide_eq_true (h.offset_lt hx)
      rw [textUpTo, htake]
      rfl

end Laid

end Glyph

namespace Cursor

variable {place message : Text} {c : Cursor} {p : Glyph → Bool}

@[simp] theorem ahead_advance : (c.advance place).ahead = c.ahead.tail := rfl

@[simp] theorem ahead_complain : (c.complain place message).ahead = c.ahead := rfl

-- What may be wrong does not move the cursor.
@[simp] theorem ahead_ite_complain (b : Prop) [Decidable b] :
    (if b then c.complain place message else c).ahead = c.ahead := by
  split <;> rfl

@[simp] theorem ahead_ite_not_complain (b : Prop) [Decidable b] :
    (if b then c else c.complain place message).ahead = c.ahead := by
  split <;> rfl

theorem ahead_ite_advance_suffix {b : Prop} [Decidable b] :
    (if b then c.advance place else c).ahead <:+ c.ahead := by
  split
  · exact List.tail_suffix c.ahead
  · exact List.suffix_rfl

theorem ahead_skipWhile_suffix : (c.skipWhile place p).ahead <:+ c.ahead := by
  have hfrom : ∀ glyphs log, (skipWhileFrom place p glyphs log).ahead <:+ glyphs := by
    intro glyphs
    induction glyphs with
    | nil => exact fun _ => List.suffix_rfl
    | cons g glyphs ih =>
        intro log
        rw [skipWhileFrom]
        split
        · exact (ih _).trans (List.suffix_cons g glyphs)
        · exact List.suffix_rfl
  exact hfrom c.ahead c.log

end Cursor

end Lookahead
