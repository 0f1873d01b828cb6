import Mathlib.Algebra.BigOperators.Field
import Mathlib.Algebra.Order.BigOperators.Group.Finset
import Mathlib.Algebra.Order.Field.Basic
import Mathlib.Tactic.FieldSimp
import Mathlib.Tactic.Linarith

/-!
# Bounded numbers and shares

A number is brought within bounds. An amount is shared by weights, and no share is to be smaller
than a limit. The parts that would get less get the limit, and the others share what is left, until
none of them would get less.
-/

namespace MDesk.Core

section Clamp

/-- The nearest number within bounds. -/
def clamp {α : Type*} [Max α] [Min α] (x lo hi : α) : α := max lo (min x hi)

variable {α : Type*} [LinearOrder α] {x lo hi : α}

theorem le_clamp : lo ≤ clamp x lo hi := le_max_left _ _

theorem clamp_le (h : lo ≤ hi) : clamp x lo hi ≤ hi := max_le h (min_le_right _ _)

theorem clamp_of_mem (hlo : lo ≤ x) (hhi : x ≤ hi) : clamp x lo hi = x := by
  rw [clamp, min_eq_left hhi, max_eq_right hlo]

theorem clamp_self : clamp x lo lo = lo := max_eq_left (min_le_right _ _)

end Clamp

section Share

variable {ι α : Type*} [DecidableEq ι] [Field α] [LinearOrder α]

/-- The limited parts get the limit. -/
def pinned (limit : α) (limited : Finset ι) (result : ι → α) (i : ι) : α :=
  if i ∈ limited then limit else result i

/-- What the pending parts share, and what the others have got. -/
def share (weights : ι → α) (limit : α) (pending : Finset ι) (remaining : α) (result : ι → α) :
    ι → α :=
  let total := ∑ i ∈ pending, weights i
  let limited := pending.filter fun i => remaining * weights i / total < limit
  if limited = ∅ then fun i => if i ∈ pending then remaining * weights i / total else result i
  else share weights limit (pending \ limited) (remaining - limited.card * limit)
    (pinned limit limited result)
termination_by pending.card
decreasing_by
  exact Finset.card_lt_card (Finset.sdiff_ssubset (Finset.filter_subset _ _)
    (Finset.nonempty_iff_ne_empty.mpr ‹_›))

variable {weights result : ι → α} {limit remaining : α} {pending : Finset ι} {i : ι}

/-- The parts that are not pending keep what they have. -/
theorem share_of_notMem (hi : i ∉ pending) : share weights limit pending remaining result i =
    result i := by
  fun_induction share weights limit pending remaining result with
  | case1 pending remaining result total limited hlimited => exact if_neg hi
  | case2 pending remaining result total limited hlimited ih =>
    rw [ih fun hmem => hi (Finset.mem_sdiff.mp hmem).1, pinned, if_neg]
    exact fun hmem => hi (Finset.mem_filter.mp hmem).1

/-- Where no part would get less than the limit, the weights decide. -/
theorem share_of_limit_le (hlimit : ∀ i ∈ pending,
    limit ≤ remaining * weights i / ∑ i ∈ pending, weights i) (hi : i ∈ pending) :
    share weights limit pending remaining result i =
      remaining * weights i / ∑ i ∈ pending, weights i := by
  have hnone : (pending.filter fun i =>
      remaining * weights i / ∑ i ∈ pending, weights i < limit) = ∅ :=
    Finset.filter_eq_empty_iff.mpr fun j hj => not_lt.mpr (hlimit j hj)
  rw [share]
  simp only [if_pos hnone]
  exact if_pos hi

variable [IsStrictOrderedRing α]

omit [DecidableEq ι] in
/-- Some part gets at least the limit by its weight. -/
theorem exists_limit_le (hpos : ∀ i ∈ pending, 0 < weights i) (hpending : pending.Nonempty)
    (hroom : pending.card * limit ≤ remaining) :
    ∃ i ∈ pending, limit ≤ remaining * weights i / ∑ i ∈ pending, weights i := by
  by_contra hall
  push Not at hall
  have htotal : 0 < ∑ i ∈ pending, weights i := Finset.sum_pos hpos hpending
  have hlt := Finset.sum_lt_sum_of_nonempty hpending hall
  have hsum : ∑ i ∈ pending, remaining * weights i / ∑ i ∈ pending, weights i = remaining := by
    rw [← Finset.sum_div, ← Finset.mul_sum, mul_div_assoc, div_self htotal.ne', mul_one]
  rw [hsum, Finset.sum_const, nsmul_eq_mul] at hlt
  exact absurd hlt (not_lt.mpr hroom)

/-- Everything is shared, and no share is smaller than the limit. -/
theorem share_spec (result : ι → α) (hpos : ∀ i ∈ pending, 0 < weights i)
    (hpending : pending.Nonempty) (hroom : pending.card * limit ≤ remaining) :
    ∑ i ∈ pending, share weights limit pending remaining result i = remaining ∧
      ∀ i ∈ pending, limit ≤ share weights limit pending remaining result i := by
  fun_induction share weights limit pending remaining result with
  | case1 pending remaining result total limited hlimited =>
    have htotal : 0 < total := Finset.sum_pos hpos hpending
    constructor
    · rw [Finset.sum_congr rfl fun i hi => if_pos hi, ← Finset.sum_div, ← Finset.mul_sum,
        mul_div_assoc, div_self htotal.ne', mul_one]
    · intro i hi
      simp only [if_pos hi]
      exact not_lt.mp (Finset.filter_eq_empty_iff.mp hlimited hi)
  | case2 pending remaining result total limited hlimited ih =>
    have hsubset : limited ⊆ pending := Finset.filter_subset _ _
    have hcard : ((pending \ limited).card : α) + limited.card = pending.card := by
      exact_mod_cast Finset.card_sdiff_add_card_eq_card hsubset
    obtain ⟨j, hj, hle⟩ := exists_limit_le hpos hpending hroom
    have hrest : (pending \ limited).Nonempty :=
      ⟨j, Finset.mem_sdiff.mpr ⟨hj, fun hmem => not_lt.mpr hle (Finset.mem_filter.mp hmem).2⟩⟩
    have hroom' : (pending \ limited).card * limit ≤ remaining - limited.card * limit := by
      rw [← hcard, add_mul] at hroom
      linarith
    obtain ⟨hsum, hall⟩ := ih (fun i hi => hpos i (Finset.mem_sdiff.mp hi).1) hrest hroom'
    have hgot (i : ι) (hi : i ∈ limited) :
        share weights limit (pending \ limited) (remaining - limited.card * limit)
          (pinned limit limited result) i = limit := by
      rw [share_of_notMem fun hmem => (Finset.mem_sdiff.mp hmem).2 hi, pinned, if_pos hi]
    constructor
    · rw [← Finset.sum_sdiff hsubset, hsum, Finset.sum_congr rfl hgot, Finset.sum_const,
        nsmul_eq_mul, sub_add_cancel]
    · intro i hi
      by_cases hmem : i ∈ limited
      · exact (hgot i hmem).ge
      · exact hall i (Finset.mem_sdiff.mpr ⟨hi, hmem⟩)

end Share

end MDesk.Core
