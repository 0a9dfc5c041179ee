import Lookahead.Lexis.Automaton
import Lookahead.Lexis.Matcher
import Lookahead.Lexis.RegexReader
import Lookahead.Text.Quoted

/-!
A machine with one automaton for all rules, which looks for matches of all of them at once. The
longest match wins, and among matches of the same length the rule that comes first.
-/

namespace Lookahead

namespace Automaton

variable {a : Automaton} {rules : List LexerRule} {state taken n : Nat} {t : Text}
  {best : Option (Nat × Option TokenType)} {type : Option TokenType}

def settleMunch (best : Option (Nat × Option TokenType)) (length : Nat) : Munch :=
  match best with
  | some (n, type) => .hit n type
  | none => .stuck length

-- The match of some length that ends in a state of the automaton.
def hit? (a : Automaton) (rules : List LexerRule) (state length : Nat) :
    Option (Nat × Option TokenType) := do
  let i ← a.accepted? state
  let rule ← rules[i]?
  return (length, rule.type)

def munchFrom (a : Automaton) (rules : List LexerRule) :
    (state taken : Nat) → Option (Nat × Option TokenType) → Text → Munch
  | _, taken, best, [] => settleMunch best taken
  | state, taken, best, b :: rest =>
    match a.step state b with
    | none => settleMunch best (taken + 1)
    | some state =>
      munchFrom a rules state (taken + 1) ((a.hit? rules state (taken + 1)).or best) rest

theorem settleMunch_eq_hit (h : settleMunch best taken = .hit n type) : best = some (n, type) := by
  cases best with
  | none => cases h
  | some hit =>
      cases h
      rfl

theorem settleMunch_eq_stuck (h : settleMunch best taken = .stuck n) : best = none ∧ n = taken := by
  cases best with
  | none =>
      cases h
      exact ⟨rfl, rfl⟩
  | some hit => cases h

theorem hit?_eq_some {hit : Nat × Option TokenType} (h : a.hit? rules state n = some hit) :
    hit.1 = n ∧ ∃ rule ∈ rules, rule.type = hit.2 := by
  simp only [hit?, Option.bind_eq_bind, Option.bind_eq_some_iff, Option.pure_def,
    Option.some.injEq] at h
  obtain ⟨i, -, rule, hrule, rfl⟩ := h
  exact ⟨rfl, rule, List.mem_of_getElem? hrule, rfl⟩

-- A match that was not known before ends further on, and is one of a rule.
theorem munchFrom_hit (h : munchFrom a rules state taken best t = .hit n type) :
    best = some (n, type) ∨
      (taken < n ∧ n ≤ taken + t.length ∧ ∃ rule ∈ rules, rule.type = type) := by
  induction t generalizing state taken best with
  | nil => exact .inl (settleMunch_eq_hit h)
  | cons b t ih =>
      rw [munchFrom] at h
      cases hstep : a.step state b with
      | none =>
          rw [hstep] at h
          exact .inl (settleMunch_eq_hit h)
      | some state' =>
          rw [hstep] at h
          rw [List.length_cons]
          rcases ih h with hbest | ⟨hlt, hle, hrule⟩
          · rcases Option.or_eq_some_iff.mp hbest with hhit | ⟨-, hbest⟩
            · obtain ⟨rfl, hrule⟩ := hit?_eq_some hhit
              exact .inr ⟨Nat.lt_succ_self taken, by omega, hrule⟩
            · exact .inl hbest
          · exact .inr ⟨by omega, by omega, hrule⟩

theorem munchFrom_stuck_bounds (h : munchFrom a rules state taken best t = .stuck n) :
    taken ≤ n ∧ n ≤ taken + t.length ∧ (t ≠ [] → taken < n) := by
  induction t generalizing state taken best with
  | nil =>
      obtain ⟨-, rfl⟩ := settleMunch_eq_stuck h
      exact ⟨Nat.le_refl n, Nat.le_refl n, fun hne => absurd rfl hne⟩
  | cons b t ih =>
      rw [munchFrom] at h
      rw [List.length_cons]
      cases hstep : a.step state b with
      | none =>
          rw [hstep] at h
          obtain ⟨-, rfl⟩ := settleMunch_eq_stuck h
          omega
      | some state' =>
          rw [hstep] at h
          have := ih h
          omega

end Automaton

namespace Munch

-- Line and column of the byte at a position. A line end is in column 0 of the line it starts.
def lineAndColumn (input : Text) (position : Nat) : Nat × Nat :=
  let step (place : Nat × Nat) (b : UInt8) : Nat × Nat :=
    if b = 0x0A then (place.1 + 1, 0) else (place.1, place.2 + 1)
  (input.take (position + 1)).foldl step (1, 0)

def placeText (input : Text) (position : Nat) : Text :=
  let (line, column) := lineAndColumn input position
  Text.ofNat line ++ text ":" ++ Text.ofNat column

def unmatched (input : Text) (start length : Nat) : Text :=
  let stop := min (start + length) (input.length - 1)
  text "Lexer error: could not match text starting at " ++ placeText input start ++
    text " failing at " ++ placeText input stop ++ text ".\n\tunmatched text: " ++
    Quoted.quote ((input.drop start).take length)

end Munch

namespace Automaton

def matcher (a : Automaton) (rules : List LexerRule) : Matcher rules where
  munch t := a.munchFrom rules a.start 0 none t
  report := Munch.unmatched
  hit_bounds h := by
    rcases munchFrom_hit h with hbest | hbounds
    · cases hbest
    · omega
  hit_type h := by
    rcases munchFrom_hit h with hbest | ⟨-, -, hrule⟩
    · cases hbest
    · exact hrule
  stuck_bounds hne h := by
    obtain ⟨-, hle, hlt⟩ := munchFrom_stuck_bounds h
    exact ⟨hlt hne, by omega⟩

-- Expressions may not match the empty text.
def readRule? (rule : LexerRule) : Option Regex :=
  (RegexReader.read? rule.source).filter fun r => !r.nullable

-- There has to be something to match.
def machine : Machine := fun rules =>
  if rules.isEmpty then none
  else (rules.mapM readRule?).map fun rs => (ofRegexes rs).matcher rules

end Automaton

end Lookahead
