import Mathlib.Data.List.Basic
import MDesk.Core.MachineInt

/-!
# Operations that panic

An operation of the machine that overflows or leaves a slice gives nothing. A shift that loses bits
counts as an overflow.
-/

namespace MDesk.Core

variable {α β : Type*} {w x n : Nat}

/-- `x << n` on numbers of `w` bits. -/
def checkedShl (w x n : Nat) : Option Nat :=
  if n < w ∧ x * 2 ^ n < 2 ^ w then some (x * 2 ^ n) else none

/-- `x >> n` on numbers of `w` bits. -/
def checkedShr (w x n : Nat) : Option Nat := if n < w then some (x / 2 ^ n) else none

/-- `&xs[start..stop]`. -/
def checkedSlice (xs : List α) (start stop : Nat) : Option (List α) :=
  if start ≤ stop ∧ stop ≤ xs.length then some ((xs.drop start).take (stop - start)) else none

theorem checkedShl_of_lt (hn : n < w) (h : x * 2 ^ n < 2 ^ w) :
    checkedShl w x n = some (x * 2 ^ n) := if_pos ⟨hn, h⟩

theorem checkedSlice_of_le {xs : List α} {start stop : Nat} (h : start ≤ stop)
    (hstop : stop ≤ xs.length) :
    checkedSlice xs start stop = some ((xs.drop start).take (stop - start)) := if_pos ⟨h, hstop⟩

/-- A slice to the end. -/
theorem checkedSlice_length {xs : List α} {start : Nat} (h : start ≤ xs.length) :
    checkedSlice xs start xs.length = some (xs.drop start) := by
  rw [checkedSlice_of_le h (Nat.le_refl _)]
  congr 1
  apply List.take_of_length_le
  rw [List.length_drop]

/-- A loop whose steps keep an invariant, and do not panic where it holds, does not panic. -/
theorem foldlM_eq_some {step : β → α → Option β} {f : β → α → β} {Q : β → List α → Prop}
    (hstep : ∀ b x xs, Q b (x :: xs) → step b x = some (f b x) ∧ Q (f b x) xs) {b : β}
    {xs : List α} (h : Q b xs) : xs.foldlM step b = some (xs.foldl f b) := by
  induction xs generalizing b with
  | nil => rfl
  | cons x xs ih =>
    obtain ⟨hsome, hnext⟩ := hstep b x xs h
    rw [List.foldlM_cons, hsome, List.foldl_cons]
    exact ih hnext

end MDesk.Core
