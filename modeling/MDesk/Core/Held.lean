import Mathlib.Logic.Function.Basic
import Mathlib.Tactic.SplitIfs

/-!
# Keys that are held

A stroke presses or releases a key. Behind a list of strokes a key is held if the last stroke of it
is a press.
-/

namespace MDesk.Core

variable {κ : Type*} [DecidableEq κ]

/-- The keys that are held behind strokes, each a key and whether it is pressed. -/
def held (strokes : List (κ × Bool)) : κ → Bool :=
  strokes.foldl (fun held stroke => Function.update held stroke.1 stroke.2) fun _ => false

variable {strokes more : List (κ × Bool)} {k : κ}

@[simp] theorem held_nil : held ([] : List (κ × Bool)) k = false := rfl

theorem held_concat (strokes : List (κ × Bool)) (stroke : κ × Bool) (k : κ) :
    held (strokes ++ [stroke]) k = if k = stroke.1 then stroke.2 else held strokes k := by
  rw [held, List.foldl_append, List.foldl_cons, List.foldl_nil, Function.update_apply]
  rfl

/-- What is held has been held, or is pressed. -/
theorem held_append (h : held (strokes ++ more) k = true) :
    held strokes k = true ∧ (k, false) ∉ more ∨ (k, true) ∈ more := by
  induction more generalizing strokes with
  | nil =>
    rw [List.append_nil] at h
    exact .inl ⟨h, List.not_mem_nil⟩
  | cons stroke more ih =>
    rw [List.append_cons] at h
    rcases ih h with ⟨hheld, hnone⟩ | hpress
    · rw [held_concat] at hheld
      split_ifs at hheld with hsame
      · refine .inr (List.mem_cons.mpr (.inl ?_))
        rw [hsame, ← hheld]
      · refine .inl ⟨hheld, fun hmem => ?_⟩
        rcases List.mem_cons.mp hmem with rfl | hmem
        · exact hsame rfl
        · exact hnone hmem
    · exact .inr (List.mem_cons_of_mem _ hpress)

end MDesk.Core
