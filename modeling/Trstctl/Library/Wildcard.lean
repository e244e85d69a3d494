import Mathlib.Data.List.Basic

/-!
# Wildcard patterns

A pattern is a list of tokens: a star for any run of symbols, a token for any
one symbol, and literal symbols.  The lemmas say how matching goes on after
tokens that take one symbol each, and that a later star makes the choices of
an earlier one irrelevant: this is why a matcher that remembers only its last
star is complete.
-/

namespace Trstctl.Wildcard

/-- A token of a pattern. -/
inductive Token (α : Type) where
  | star
  | any
  | literal (symbol : α)
deriving DecidableEq

/-- A pattern matches a word. -/
inductive Matches {α : Type} : List (Token α) → List α → Prop where
  | nil : Matches [] []
  | star {pattern word} (taken : List α) (rest : Matches pattern word) :
      Matches (.star :: pattern) (taken ++ word)
  | any {pattern word} (symbol : α) (rest : Matches pattern word) :
      Matches (.any :: pattern) (symbol :: word)
  | literal {pattern word} (symbol : α) (rest : Matches pattern word) :
      Matches (.literal symbol :: pattern) (symbol :: word)

variable {α : Type}

/-- The token takes exactly one symbol, and may take this one. -/
def Token.Takes : Token α → α → Prop
  | .star, _ => False
  | .any, _ => True
  | .literal expected, symbol => expected = symbol

variable {word : List α}

theorem matches_nil_iff : Matches [] word ↔ word = [] := by
  constructor
  · intro matched
    cases matched
    rfl
  · rintro rfl
    exact Matches.nil

variable {pattern : List (Token α)}

theorem matches_star_iff :
    Matches (.star :: pattern) word ↔ ∃ count, Matches pattern (word.drop count) := by
  constructor
  · intro matched
    cases matched with
    | star taken rest => exact ⟨taken.length, by rwa [List.drop_left]⟩
  · rintro ⟨count, rest⟩
    have whole := Matches.star (word.take count) rest
    rwa [List.take_append_drop] at whole

theorem matches_cons_iff {token : Token α} (fixed : token ≠ .star) :
    Matches (token :: pattern) word ↔
      ∃ symbol rest, word = symbol :: rest ∧ token.Takes symbol ∧ Matches pattern rest := by
  constructor
  · intro matched
    cases matched with
    | star taken rest => exact absurd rfl fixed
    | any symbol rest => exact ⟨symbol, _, rfl, trivial, rest⟩
    | literal symbol rest => exact ⟨symbol, _, rfl, rfl, rest⟩
  · rintro ⟨symbol, rest, rfl, takes, matched⟩
    cases token with
    | star => exact absurd rfl fixed
    | any => exact Matches.any symbol matched
    | literal expected =>
        obtain rfl : expected = symbol := takes
        exact Matches.literal expected matched

theorem matches_star_of_drop {count : Nat}
    (matched : Matches (.star :: pattern) (word.drop count)) :
    Matches (.star :: pattern) word := by
  obtain ⟨more, rest⟩ := matches_star_iff.mp matched
  rw [List.drop_drop] at rest
  exact matches_star_iff.mpr ⟨_, rest⟩

theorem matches_nil_right_iff :
    Matches pattern [] ↔ ∀ token ∈ pattern, token = .star := by
  induction pattern with
  | nil => simp [matches_nil_iff]
  | cons token pattern ih =>
      rw [List.forall_mem_cons]
      by_cases star : token = .star
      · subst star
        simp [matches_star_iff, ih]
      · simp [matches_cons_iff star, star]

theorem matches_drop_of_fixed {fixed : List (Token α)} {consumed : List α}
    (lengths : fixed.length = consumed.length) (noStar : ∀ token ∈ fixed, token ≠ .star)
    {count : Nat} (matched : Matches (fixed ++ pattern) ((consumed ++ word).drop count)) :
    Matches pattern (word.drop count) := by
  suffices skipped : ∀ (fixed : List (Token α)) (text : List α),
      (∀ token ∈ fixed, token ≠ .star) → Matches (fixed ++ pattern) text →
        Matches pattern (text.drop fixed.length) by
    have rest := skipped fixed _ noStar matched
    rw [List.drop_drop, lengths, Nat.add_comm, ← List.drop_drop, List.drop_left] at rest
    exact rest
  intro fixed
  induction fixed with
  | nil => exact fun text _ matched => matched
  | cons token fixed ih =>
      intro text noStar matched
      obtain ⟨first, others⟩ := List.forall_mem_cons.mp noStar
      obtain ⟨symbol, rest, rfl, -, matchedRest⟩ := (matches_cons_iff first).mp matched
      exact ih rest others matchedRest

end Trstctl.Wildcard
