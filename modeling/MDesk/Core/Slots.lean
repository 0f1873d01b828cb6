import Mathlib.Data.List.FinRange
import Mathlib.Logic.Function.Basic

/-!
# Slots

A row of places of which each holds at most one thing. No thing stands in two places as long
as whatever is put down is taken up first.
-/

namespace MDesk.Core

/-- A row of places. -/
abbrev Slots (n : Nat) (α : Type*) := Fin n → Option α

namespace Slots

variable {n : Nat} {α : Type*}

/-- The first place that meets a condition. -/
def find (s : Slots n α) (p : Fin n → Option α → Bool) : Option (Fin n) :=
  (List.finRange n).find? fun i => p i (s i)

/-- Fill a place or clear it. -/
def put (s : Slots n α) (i : Fin n) (x : Option α) : Slots n α := Function.update s i x

/-- Nothing stands in two places. -/
def Distinct (s : Slots n α) : Prop := ∀ i j a, s i = some a → s j = some a → i = j

variable {s : Slots n α} {p : Fin n → Option α → Bool} {i j : Fin n} {a b : α} {x : Option α}

theorem find_some (h : s.find p = some i) : p i (s i) = true :=
  List.find?_some (p := fun i => p i (s i)) h

theorem find_none : s.find p = none ↔ ∀ i, p i (s i) = false := by
  simp [find, List.find?_eq_none]

theorem put_apply : s.put i x j = if j = i then x else s j := by
  unfold put
  rw [Function.update_apply]

@[simp] theorem put_self : s.put i x i = x := by rw [put_apply, if_pos rfl]

theorem Distinct.put_none (h : s.Distinct) : (s.put i none).Distinct := by
  intro j k a hj hk
  rw [put_apply] at hj hk
  split_ifs at hj hk
  exact h j k a hj hk

theorem Distinct.put_some (h : s.Distinct) (hnew : ∀ j, s j ≠ some a) :
    (s.put i (some a)).Distinct := by
  intro j k b hj hk
  rw [put_apply] at hj hk
  split_ifs at hj hk with hji hki hki
  · rw [hji, hki]
  · obtain rfl := Option.some.inj hj
    exact absurd hk (hnew k)
  · obtain rfl := Option.some.inj hk
    exact absurd hj (hnew j)
  · exact h j k b hj hk

/-- Two places change what they hold. -/
def swap (s : Slots n α) (i j : Fin n) : Slots n α := (s.put i (s j)).put j (s i)

theorem swap_apply {k : Fin n} : s.swap i j k = s (Equiv.swap i j k) := by
  unfold swap
  rw [put_apply, put_apply, Equiv.swap_apply_def]
  split_ifs with hj hi hi
  · rw [← hi, hj]
  · rfl
  · rfl
  · rfl

theorem Distinct.swap (h : s.Distinct) : (s.swap i j).Distinct := by
  intro k l a hk hl
  rw [swap_apply] at hk hl
  exact (Equiv.swap i j).injective (h _ _ a hk hl)

variable [DecidableEq α]

def indexOf (s : Slots n α) (a : α) : Option (Fin n) := s.find fun _ x => x = some a

/-- Take a thing up where it stands first. -/
def remove (s : Slots n α) (a : α) : Slots n α :=
  match s.indexOf a with
  | some i => s.put i none
  | none => s

/-- Take a thing up and put it down in a place. -/
def moveTo (s : Slots n α) (i : Fin n) (a : α) : Slots n α := (s.remove a).put i (some a)

theorem indexOf_some (h : s.indexOf a = some i) : s i = some a := by
  simpa using find_some h

theorem indexOf_none : s.indexOf a = none ↔ ∀ i, s i ≠ some a := by
  simp [indexOf, find_none]

/-- What is removed is gone, and all else stays. -/
theorem Distinct.remove_apply (h : s.Distinct) :
    s.remove a j = if s j = some a then none else s j := by
  unfold remove
  cases hindex : s.indexOf a with
  | none => rw [if_neg (indexOf_none.mp hindex j)]
  | some i =>
    have hi := indexOf_some hindex
    simp only [put_apply]
    by_cases hj : s j = some a
    · rw [if_pos (h j i a hj hi), if_pos hj]
    · have hne : j ≠ i := fun heq => hj (heq ▸ hi)
      rw [if_neg hne, if_neg hj]

theorem Distinct.remove (h : s.Distinct) : (s.remove a).Distinct := by
  unfold Slots.remove
  split
  · exact h.put_none
  · exact h

theorem Distinct.moveTo (h : s.Distinct) : (s.moveTo i a).Distinct := by
  refine h.remove.put_some fun j => ?_
  rw [h.remove_apply]
  split_ifs with hj
  · simp
  · exact hj

theorem Distinct.moveTo_apply (h : s.Distinct) : s.moveTo i a j =
    if j = i then some a else if s j = some a then none else s j := by
  rw [Slots.moveTo, put_apply, h.remove_apply]

end Slots

end MDesk.Core
