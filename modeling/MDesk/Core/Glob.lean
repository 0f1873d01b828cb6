import Mathlib.Data.List.Infix
import Mathlib.Data.List.TakeDrop

/-!
# Patterns with wildcards

A pattern is a list of tokens: a literal, a wildcard for one character, and a wildcard for any
text. Matching is defined by the structure of the pattern; a matcher that goes back to the last
wildcard for texts rests on what is shown here about segments without one.
-/

namespace MDesk.Core.Glob

/-- A part of a pattern. -/
inductive Token (α : Type*) where
  | many
  | one
  | lit (c : α)
  deriving DecidableEq, Repr

variable {α : Type*} {p rest segment : List (Token α)} {s : List α} {c : α}

/-- The texts a pattern stands for. -/
def Matches : List (Token α) → List α → Prop
  | [], s => s = []
  | .many :: p, s => ∃ k ≤ s.length, Matches p (s.drop k)
  | .one :: p, s => ∃ c s', s = c :: s' ∧ Matches p s'
  | .lit c :: p, s => ∃ s', s = c :: s' ∧ Matches p s'

@[simp] theorem matches_nil : Matches ([] : List (Token α)) s ↔ s = [] := Iff.rfl

theorem matches_many : Matches (.many :: p) s ↔ ∃ k ≤ s.length, Matches p (s.drop k) := Iff.rfl

@[simp] theorem matches_one_cons : Matches (.one :: p) (c :: s) ↔ Matches p s := by
  simp [Matches]

@[simp] theorem matches_lit_cons {d : α} :
    Matches (.lit d :: p) (c :: s) ↔ d = c ∧ Matches p s := by
  simp [Matches, eq_comm]

@[simp] theorem not_matches_one_nil : ¬ Matches (.one :: p) ([] : List α) := by
  simp [Matches]

@[simp] theorem not_matches_lit_nil : ¬ Matches (.lit c :: p) ([] : List α) := by
  simp [Matches]

instance decidableMatches [DecidableEq α] : ∀ (p : List (Token α)) (s : List α),
    Decidable (Matches p s)
  | [], s => inferInstanceAs (Decidable (s = []))
  | .many :: p, s =>
    have := decidableMatches p
    inferInstanceAs (Decidable (∃ k ≤ s.length, Matches p (s.drop k)))
  | .one :: _, [] => .isFalse not_matches_one_nil
  | .one :: p, _ :: s => have := decidableMatches p s; decidable_of_iff _ matches_one_cons.symm
  | .lit _ :: _, [] => .isFalse not_matches_lit_nil
  | .lit _ :: p, _ :: s => have := decidableMatches p s; decidable_of_iff _ matches_lit_cons.symm

/-- Only wildcards for texts match the empty text. -/
theorem matches_empty_iff : Matches p ([] : List α) ↔ ∀ t ∈ p, t = .many := by
  induction p with
  | nil => simp
  | cons t p ih =>
    cases t with
    | many => simp [matches_many, ih]
    | one => simp
    | lit c => simp

/-- A segment without wildcards for texts takes as many characters as it is long. -/
theorem matches_append (hfree : .many ∉ segment) (h : Matches (segment ++ rest) s) :
    segment.length ≤ s.length ∧ Matches rest (s.drop segment.length) := by
  induction segment generalizing s with
  | nil => exact ⟨Nat.zero_le _, h⟩
  | cons t segment ih =>
    rw [List.mem_cons, not_or] at hfree
    cases t with
    | many => exact absurd rfl hfree.1
    | one =>
      obtain ⟨c, s', rfl, hrest⟩ := h
      obtain ⟨hlen, hmatch⟩ := ih hfree.2 hrest
      exact ⟨Nat.succ_le_succ hlen, hmatch⟩
    | lit c =>
      obtain ⟨s', rfl, hrest⟩ := h
      obtain ⟨hlen, hmatch⟩ := ih hfree.2 hrest
      exact ⟨Nat.succ_le_succ hlen, hmatch⟩

/-- A wildcard for texts that may start anywhere behind a place. -/
theorem exists_matches_many {m : Nat} (hm : m ≤ s.length) :
    (∃ k, m ≤ k ∧ k ≤ s.length ∧ Matches p (s.drop k)) ↔ Matches (.many :: p) (s.drop m) := by
  rw [matches_many]
  constructor
  · rintro ⟨k, hmk, hk, hmatch⟩
    refine ⟨k - m, by simp; omega, ?_⟩
    rwa [List.drop_drop, Nat.add_sub_cancel' hmk]
  · rintro ⟨k, hk, hmatch⟩
    rw [List.length_drop] at hk
    rw [List.drop_drop] at hmatch
    exact ⟨m + k, Nat.le_add_right m k, by omega, hmatch⟩

end MDesk.Core.Glob
