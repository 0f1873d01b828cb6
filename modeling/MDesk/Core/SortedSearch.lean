import Mathlib.Data.List.Sort
import Mathlib.Order.Defs.LinearOrder

/-!
# Searching a sorted list

The window in which a value can be is halved until the value is found or the window is empty. In a
sorted list it is found wherever it is.
-/

namespace MDesk.Core

variable {α : Type*} [LinearOrder α]

/-- The value in a window of a list, which begins at a position and has a length. -/
def searchWindow (l : List α) (x : α) (lo len : Nat) : Option Nat :=
  if len = 0 then none
  else
    match l[lo + len / 2]? with
    | none => none
    | some y =>
      if y = x then some (lo + len / 2)
      else if y < x then searchWindow l x (lo + len / 2 + 1) (len - len / 2 - 1)
      else searchWindow l x lo (len / 2)
termination_by len

/-- `slice::binary_search`: where the value is, if it is there. -/
def binarySearch (l : List α) (x : α) : Option Nat := searchWindow l x 0 l.length

variable {l : List α} {x : α} {lo len i : Nat}

theorem searchWindow_sound (h : searchWindow l x lo len = some i) : l[i]? = some x := by
  fun_induction searchWindow l x lo len with
  | case1 => cases h
  | case2 => cases h
  | case3 lo len hlen hy =>
    obtain rfl := Option.some.inj h
    exact hy
  | case4 lo len hlen y hy hne hlt ih => exact ih h
  | case5 lo len hlen y hy hne hge ih => exact ih h

theorem lt_of_sorted {j : Nat} {y : α} (hl : l.Pairwise (· < ·)) (hi : l[i]? = some x)
    (hj : l[j]? = some y) (hxy : x < y) : i < j := by
  obtain ⟨hi', rfl⟩ := List.getElem?_eq_some_iff.mp hi
  obtain ⟨hj', rfl⟩ := List.getElem?_eq_some_iff.mp hj
  by_contra hle
  rcases Nat.lt_or_eq_of_le (Nat.le_of_not_lt hle) with hlt | rfl
  · exact lt_asymm hxy (List.pairwise_iff_getElem.mp hl j i hj' hi' hlt)
  · exact lt_irrefl _ hxy

/-- A value of the window is found. -/
theorem searchWindow_complete (hl : l.Pairwise (· < ·)) (hi : l[i]? = some x) (hlo : lo ≤ i)
    (hlen : i < lo + len) (hwindow : lo + len ≤ l.length) :
    ∃ j, searchWindow l x lo len = some j := by
  fun_induction searchWindow l x lo len with
  | case1 lo => omega
  | case2 lo len hne hnone =>
    rw [List.getElem?_eq_none_iff] at hnone
    omega
  | case3 lo len hne hy => exact ⟨_, rfl⟩
  | case4 lo len hne y hy hne' hlt ih =>
    have hright := lt_of_sorted hl hy hi hlt
    exact ih (by omega) (by omega) (by omega)
  | case5 lo len hne y hy hne' hge ih =>
    have hleft := lt_of_sorted hl hi hy (lt_of_le_of_ne (not_lt.mp hge) (Ne.symm hne'))
    exact ih hlo (by omega) (by omega)

/-- In a sorted list a value is found if and only if it is there. -/
theorem binarySearch_isSome_iff (hl : l.Pairwise (· < ·)) :
    (binarySearch l x).isSome ↔ x ∈ l := by
  rw [Option.isSome_iff_exists]
  constructor
  · rintro ⟨i, hi⟩
    exact List.mem_of_getElem? (searchWindow_sound hi)
  · intro hx
    obtain ⟨i, hi⟩ := List.mem_iff_getElem?.mp hx
    have hlen : i < 0 + l.length := by
      rw [Nat.zero_add]
      exact (List.getElem?_eq_some_iff.mp hi).1
    exact searchWindow_complete hl hi (Nat.zero_le i) hlen (Nat.zero_add _).le

/-- What is found is taken out where it is. -/
theorem eraseIdx_of_binarySearch (hl : l.Pairwise (· < ·)) (h : binarySearch l x = some i) :
    l.eraseIdx i = l.erase x := by
  obtain ⟨hi, rfl⟩ := List.getElem?_eq_some_iff.mp (searchWindow_sound h)
  have hnodup : l.Nodup := hl.imp fun hlt => hlt.ne
  exact (List.erase_eq_eraseIdx_of_idxOf (hnodup.idxOf_getElem i hi)).symm

end MDesk.Core
