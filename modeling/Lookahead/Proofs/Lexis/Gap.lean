import Lookahead.Lexis.Scanner
import Lookahead.Proofs.Lexis.Glyph

/-!
What stands between the tokens of a text: white space and comments. A scanner skips nothing else.
-/

namespace Lookahead

namespace Scanner

def blanks : Text := [0x09, 0x0A, 0x0D, 0x20]

-- Comments reach up to a line end or, in brackets, up to the first closing bracket. The last one
-- of an input may be open.
inductive IsGap : (last : Bool) → Text → Prop
  | nil {last : Bool} : IsGap last []
  | blank {last : Bool} {b : UInt8} {t : Text} (hb : b ∈ blanks) (h : IsGap last t) :
      IsGap last (b :: t)
  | line {last : Bool} {body t : Text} (hbody : 0x0A ∉ body) (h : IsGap last t) :
      IsGap last (0x2F :: 0x2F :: (body ++ 0x0A :: t))
  | block {last : Bool} {body t : Text} (hbody : ¬[0x2A, 0x2F] <:+: body ++ [0x2A])
      (h : IsGap last t) : IsGap last (0x2F :: 0x2A :: (body ++ 0x2A :: 0x2F :: t))
  | openLine {body : Text} (hbody : 0x0A ∉ body) : IsGap true (0x2F :: 0x2F :: body)
  | openBlock {body : Text} (hbody : ¬[0x2A, 0x2F] <:+: body) : IsGap true (0x2F :: 0x2A :: body)

-- The rest of a gap, inside of a comment or not.
def IsGapIn (last : Bool) : Trivia → Text → Prop
  | .space, t => IsGap last t
  | .line, t => (last = true ∧ 0x0A ∉ t) ∨
      ∃ body rest, t = body ++ 0x0A :: rest ∧ 0x0A ∉ body ∧ IsGap last rest
  | .block, t => (last = true ∧ ¬[0x2A, 0x2F] <:+: t) ∨
      ∃ body rest, t = body ++ 0x2A :: 0x2F :: rest ∧ ¬[0x2A, 0x2F] <:+: body ++ [0x2A] ∧
        IsGap last rest

namespace IsGapIn

variable {last : Bool} {t bytes : Text} {b : UInt8}

theorem openedLine (h : IsGapIn last .line t) : IsGap last (0x2F :: 0x2F :: t) := by
  rcases h with ⟨rfl, hbody⟩ | ⟨body, rest, rfl, hbody, h⟩
  · exact .openLine hbody
  · exact .line hbody h

theorem openedBlock (h : IsGapIn last .block t) : IsGap last (0x2F :: 0x2A :: t) := by
  rcases h with ⟨rfl, hbody⟩ | ⟨body, rest, rfl, hbody, h⟩
  · exact .openBlock hbody
  · exact .block hbody h

theorem line_append (hbytes : 0x0A ∉ bytes) (h : IsGapIn last .line t) :
    IsGapIn last .line (bytes ++ t) := by
  rcases h with ⟨hlast, hbody⟩ | ⟨body, rest, rfl, hbody, h⟩
  · exact .inl ⟨hlast, by simp [hbytes, hbody]⟩
  · exact .inr ⟨bytes ++ body, rest, by simp, by simp [hbytes, hbody], h⟩

-- Only a star in front of a slash closes a comment.
theorem infix_cons_iff (hclose : b = 0x2A → t.head? ≠ some 0x2F) :
    [0x2A, 0x2F] <:+: b :: t ↔ [0x2A, 0x2F] <:+: t := by
  rw [List.infix_cons_iff, or_iff_right]
  rintro ⟨rest, hrest⟩
  obtain ⟨rfl, rfl⟩ := List.cons.inj hrest
  exact hclose rfl rfl

theorem block_cons (hclose : b = 0x2A → t.head? ≠ some 0x2F) (h : IsGapIn last .block t) :
    IsGapIn last .block (b :: t) := by
  rcases h with ⟨hlast, hbody⟩ | ⟨body, rest, rfl, hbody, h⟩
  · exact .inl ⟨hlast, (infix_cons_iff hclose).not.mpr hbody⟩
  · refine .inr ⟨b :: body, rest, rfl, ?_, h⟩
    rw [List.cons_append, infix_cons_iff]
    · exact hbody
    · cases body with
      | nil => simp
      | cons x body => exact hclose

theorem block_append (hbytes : 0x2A ∉ bytes) (h : IsGapIn last .block t) :
    IsGapIn last .block (bytes ++ t) := by
  induction bytes with
  | nil => exact h
  | cons b bytes ih =>
      obtain ⟨hb, hbytes⟩ := List.ne_and_not_mem_of_not_mem_cons hbytes
      exact block_cons (fun heq => absurd heq.symm hb) (ih hbytes)

end IsGapIn

variable {g h : Glyph} {glyphs : List Glyph} {ahead skipped rest : List Glyph}

theorem bytes_mem_blanks (hwritten : g.bytes = Utf8.encode g.code) (hspace : isSpace g = true) :
    ∃ b ∈ blanks, g.bytes = [b] := by
  have hcode : g.code = 0x09 ∨ g.code = 0x0A ∨ g.code = 0x0D ∨ g.code = 0x20 := by
    simpa [isSpace, or_assoc] using hspace
  rw [hwritten]
  rcases hcode with h | h | h | h <;> rw [h] <;> decide

-- A slash at the front of what is skipped is the first glyph.
theorem code_of_head? (hwritten : h.bytes = Utf8.encode h.code)
    (hskipped : h :: rest = skipped ++ ahead)
    (hslash : (Glyph.bytesOf skipped).head? = some 0x2F) : h.code = 0x2F := by
  cases skipped with
  | nil => simp at hslash
  | cons x skipped =>
      obtain ⟨rfl, -⟩ := List.cons.inj hskipped
      have hne : h.bytes ≠ [] := hwritten ▸ Utf8.encode_ne_nil h.code
      rw [Glyph.bytesOf_cons, List.head?_append_of_ne_nil _ hne] at hslash
      exact Glyph.code_eq_of_mem hwritten (List.mem_of_head? hslash) (by decide)

-- One more glyph in a comment that it does not close.
theorem IsGapIn.block_glyph {last : Bool} {t : Text} (hwritten : g.bytes = Utf8.encode g.code)
    (hclose : g.code = 0x2A → t.head? ≠ some 0x2F) (hgap : IsGapIn last .block t) :
    IsGapIn last .block (g.bytes ++ t) := by
  by_cases hstar : g.code = 0x2A
  · rw [hwritten, hstar]
    exact hgap.block_cons fun _ => hclose hstar
  · exact hgap.block_append fun hmem => hstar (Glyph.code_eq_of_mem hwritten hmem (by decide))

-- What a scanner skips is a gap, open only at the end of the input.
theorem skipFrom_spec (source : Text) (mode : Trivia) (place : Text) (glyphs : List Glyph)
    (log : List Text) (hwritten : ∀ g ∈ glyphs, g.bytes = Utf8.encode g.code) :
    ∃ skipped, glyphs = skipped ++ (skipFrom source mode place glyphs log).ahead ∧
      IsGapIn (skipFrom source mode place glyphs log).ahead.isEmpty mode
        (Glyph.bytesOf skipped) := by
  fun_induction skipFrom source mode place glyphs log with
  | case1 place log => exact ⟨[], rfl, .nil⟩
  | case2 place g rest log hspace ih =>
      obtain ⟨hg, hrest⟩ := List.forall_mem_cons.mp hwritten
      obtain ⟨skipped, heq, hgap⟩ := ih hrest
      obtain ⟨b, hb, hbytes⟩ := bytes_mem_blanks hg hspace
      refine ⟨g :: skipped, congrArg (g :: ·) heq, ?_⟩
      rw [Glyph.bytesOf_cons, hbytes]
      exact .blank hb hgap
  | case3 place g log hspace hslash => exact ⟨[], rfl, .nil⟩
  | case4 place g log hspace hslash h rest place' hslash' ih =>
      obtain ⟨hg, hh, hrest⟩ := by simpa only [List.forall_mem_cons] using hwritten
      obtain ⟨skipped, heq, hgap⟩ := ih hrest
      refine ⟨g :: h :: skipped, congrArg (g :: h :: ·) heq, ?_⟩
      rw [Glyph.bytesOf_cons, Glyph.bytesOf_cons, hg, hh, hslash, hslash']
      exact hgap.openedLine
  | case5 place g log hspace hslash h rest place' hslash' hstar ih =>
      obtain ⟨hg, hh, hrest⟩ := by simpa only [List.forall_mem_cons] using hwritten
      obtain ⟨skipped, heq, hgap⟩ := ih hrest
      refine ⟨g :: h :: skipped, congrArg (g :: h :: ·) heq, ?_⟩
      rw [Glyph.bytesOf_cons, Glyph.bytesOf_cons, hg, hh, hslash, hstar]
      exact hgap.openedBlock
  | case6 place g log hspace hslash h rest hslash' hstar => exact ⟨[], rfl, .nil⟩
  | case7 place g rest log hspace hslash => exact ⟨[], rfl, .nil⟩
  | case8 place log => exact ⟨[], rfl, .inl ⟨rfl, List.not_mem_nil⟩⟩
  | case9 place g rest log next ih =>
      obtain ⟨hg, hrest⟩ := List.forall_mem_cons.mp hwritten
      obtain ⟨skipped, heq, hgap⟩ := ih hrest
      refine ⟨g :: skipped, congrArg (g :: ·) heq, ?_⟩
      rw [Glyph.bytesOf_cons]
      by_cases hend : g.code = 0x0A
      · have hnext : next = .space := if_pos hend
        rw [hnext] at hgap ⊢
        rw [hg, hend]
        exact .inr ⟨[], _, rfl, List.not_mem_nil, hgap⟩
      · have hnext : next = .line := if_neg hend
        rw [hnext] at hgap ⊢
        exact hgap.line_append fun hmem => hend (Glyph.code_eq_of_mem hg hmem (by decide))
  | case10 place log => exact ⟨[], rfl, .inl ⟨rfl, by simp⟩⟩
  | case11 place g log ih =>
      obtain ⟨hg, hrest⟩ := List.forall_mem_cons.mp hwritten
      obtain ⟨skipped, heq, hgap⟩ := ih hrest
      obtain ⟨rfl, -⟩ := List.append_eq_nil_iff.mp heq.symm
      refine ⟨[g], congrArg (g :: ·) heq, ?_⟩
      exact hgap.block_glyph hg fun _ => nofun
  | case12 place g log h rest hclose ih =>
      obtain ⟨hg, hh, hrest⟩ := by simpa only [List.forall_mem_cons] using hwritten
      obtain ⟨hstar, hslash⟩ : g.code = 0x2A ∧ h.code = 0x2F := by simpa using hclose
      obtain ⟨skipped, heq, hgap⟩ := ih hrest
      refine ⟨g :: h :: skipped, congrArg (g :: h :: ·) heq, ?_⟩
      rw [Glyph.bytesOf_cons, Glyph.bytesOf_cons, hg, hh, hstar, hslash]
      exact .inr ⟨[], _, rfl, by decide, hgap⟩
  | case13 place g log h rest hclose ih =>
      obtain ⟨hg, hrest⟩ := List.forall_mem_cons.mp hwritten
      obtain ⟨skipped, heq, hgap⟩ := ih hrest
      refine ⟨g :: skipped, congrArg (g :: ·) heq, ?_⟩
      apply hgap.block_glyph hg
      intro hstar hslash
      have hcode := code_of_head? (hrest h List.mem_cons_self) heq hslash
      exact hclose (by simp [hstar, hcode])

end Scanner

end Lookahead
