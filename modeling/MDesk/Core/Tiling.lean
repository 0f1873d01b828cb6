import Mathlib.Algebra.Order.Field.Basic
import Mathlib.Algebra.Order.BigOperators.Group.List
import Mathlib.Data.List.GetD
import Mathlib.Tactic.Linarith
import Mathlib.Tactic.Ring

/-!
# Tracks that tile an interval

Tracks lie one behind another in an interval, with a gap between each and the next. They are in the
interval, do not overlap, and cover it but for the gaps.
-/

namespace MDesk.Core

variable {α : Type*} [Field α] [LinearOrder α]

/-- Tracks with their starts and sizes tile an interval from zero on, and none is smaller than a
limit. -/
structure Tiles (count : Nat) (extent gap limit : α) (start size : Nat → α) : Prop where
  pos : 0 < count
  zero : start 0 = 0
  next : ∀ i, i + 1 < count → start (i + 1) = start i + size i + gap
  last : start (count - 1) + size (count - 1) = extent
  limit_le : ∀ i < count, limit ≤ size i

namespace Tiles

variable [IsStrictOrderedRing α] {count i j : Nat} {extent gap limit x : α} {start size : Nat → α}

/-- A track begins behind the gap of each one before it. -/
theorem start_le (h : Tiles count extent gap limit start size) (hgap : 0 ≤ gap) (hlimit : 0 ≤ limit)
    (hij : i < j) (hj : j < count) : start i + size i + gap ≤ start j := by
  induction j with
  | zero => omega
  | succ j ih =>
    rw [h.next j hj]
    rcases Nat.lt_succ_iff_lt_or_eq.mp hij with hlt | rfl
    · have hstart := ih hlt (by omega)
      have hsize := h.limit_le j (by omega)
      linarith
    · exact le_refl _

theorem start_nonneg (h : Tiles count extent gap limit start size) (hgap : 0 ≤ gap)
    (hlimit : 0 ≤ limit) (hi : i < count) : 0 ≤ start i := by
  cases i with
  | zero => exact h.zero.ge
  | succ i =>
    have hstart := h.start_le hgap hlimit (Nat.succ_pos i) hi
    have hsize := h.limit_le 0 (by omega)
    rw [h.zero] at hstart
    linarith

/-- A track ends in the interval. -/
theorem end_le (h : Tiles count extent gap limit start size) (hgap : 0 ≤ gap) (hlimit : 0 ≤ limit)
    (hi : i < count) : start i + size i ≤ extent := by
  rcases Nat.lt_or_ge i (count - 1) with hlt | hge
  · have hstart := h.start_le hgap hlimit hlt (by omega)
    have hsize := h.limit_le (count - 1) (by omega)
    have hlast := h.last
    linarith
  · obtain rfl : i = count - 1 := by omega
    exact h.last.le

omit [IsStrictOrderedRing α] in
/-- Every place is in a track or between two. -/
theorem cover (h : Tiles count extent gap limit start size) (hx : 0 ≤ x) (hx' : x ≤ extent) :
    (∃ i < count, start i ≤ x ∧ x ≤ start i + size i) ∨
      ∃ i, i + 1 < count ∧ start i + size i < x ∧ x < start (i + 1) := by
  by_contra hnone
  push Not at hnone
  obtain ⟨htrack, hbetween⟩ := hnone
  have hbehind : ∀ i < count, start i + size i < x := by
    intro i hi
    induction i with
    | zero => exact htrack 0 hi (h.zero.le.trans hx)
    | succ i ih => exact htrack (i + 1) hi (hbetween i hi (ih (by omega)))
  have hlast := hbehind (count - 1) (Nat.sub_one_lt_of_lt h.pos)
  rw [h.last] at hlast
  exact absurd hx' (not_le.mpr hlast)

end Tiles

/-! ## Tracks of given sizes -/

/-- The start of a track of a list of sizes. -/
def trackStart (sizes : List α) (gap : α) (i : Nat) : α := (sizes.take i).sum + gap * i

/-- The size of a track, of which the last one takes what is left. -/
def trackSize (sizes : List α) (gap extent : α) (count i : Nat) : α :=
  if i = count - 1 then max 0 (extent - trackStart sizes gap i) else sizes.getD i 0

variable {sizes : List α} {count i : Nat} {extent gap limit : α}

omit [LinearOrder α] in
theorem trackStart_succ (sizes : List α) (gap : α) (hi : i < sizes.length) :
    trackStart sizes gap (i + 1) = trackStart sizes gap i + sizes.getD i 0 + gap := by
  rw [trackStart, trackStart, List.sum_take_succ _ _ hi, List.getD_eq_getElem _ _ hi]
  push_cast
  ring

variable [IsStrictOrderedRing α]

/-- What is left for the last track is its own size. -/
theorem trackSize_eq (hcount : sizes.length = count) (hlimit : 0 ≤ limit)
    (hsizes : ∀ s ∈ sizes, limit ≤ s) (hsum : sizes.sum + gap * (count - 1 : Nat) = extent)
    (hi : i < count) : trackSize sizes gap extent count i = sizes.getD i 0 := by
  unfold trackSize
  split_ifs with hlast
  · have hstart := trackStart_succ sizes gap (i := i) (by omega)
    have hall : trackStart sizes gap (i + 1) = extent + gap := by
      rw [trackStart, List.take_of_length_le (by omega), ← hsum, hlast]
      push_cast
      ring
    have hsize : 0 ≤ sizes.getD i 0 := by
      rw [List.getD_eq_getElem _ _ (by omega)]
      exact hlimit.trans (hsizes _ (List.getElem_mem _))
    have hleft : extent - trackStart sizes gap i = sizes.getD i 0 := by linarith
    rw [hleft, max_eq_right hsize]
  · rfl

/-- Sizes that add up with the gaps to an interval tile it. -/
theorem tiles_of_sizes (hcount : sizes.length = count) (hpos : 0 < count) (hlimit : 0 ≤ limit)
    (hsizes : ∀ s ∈ sizes, limit ≤ s) (hsum : sizes.sum + gap * (count - 1 : Nat) = extent) :
    Tiles count extent gap limit (trackStart sizes gap) (trackSize sizes gap extent count) where
  pos := hpos
  zero := by simp [trackStart]
  next i hi := by
    rw [trackSize_eq hcount hlimit hsizes hsum (by omega), trackStart_succ _ _ (by omega)]
  last := by
    have hstart := trackStart_succ sizes gap (i := count - 1) (by omega)
    have hall : trackStart sizes gap (count - 1 + 1) = extent + gap := by
      rw [trackStart, List.take_of_length_le (by omega), ← hsum]
      push_cast
      ring
    rw [trackSize_eq hcount hlimit hsizes hsum (by omega)]
    linarith
  limit_le i hi := by
    rw [trackSize_eq hcount hlimit hsizes hsum hi, List.getD_eq_getElem _ _ (by omega)]
    exact hsizes _ (List.getElem_mem _)

end MDesk.Core
