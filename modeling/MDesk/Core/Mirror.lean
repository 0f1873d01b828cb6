import Mathlib.Data.List.Basic

/-!
# Copying what is still being written

Contents grow, and only their first `k` elements are ever written again. A copy is made piece
by piece, each piece laid where it belongs; the first `k` elements are laid again at the end.
-/

namespace MDesk.Core

variable {α : Type*}

/-- `data` laid over contents at a position, behind a filling where the contents end before. -/
def overlay (zero : α) (contents : List α) (pos : Nat) (data : List α) : List α :=
  contents.take pos ++ List.replicate (pos - contents.length) zero ++ data ++
    contents.drop (pos + data.length)

/-- What has been written before is still there, the first `k` elements apart. -/
def GrowsBehind (k : Nat) (before after : List α) : Prop :=
  before.length ≤ after.length ∧ ∀ i, k ≤ i → i < before.length → after[i]? = before[i]?

/-- A copy has the length of its original, and its elements behind the first `k`. -/
def Mirrors (k : Nat) (copy original : List α) : Prop :=
  copy.length = original.length ∧ ∀ i, k ≤ i → copy[i]? = original[i]?

variable {zero : α} {k n : Nat} {copy original before after later : List α}

theorem GrowsBehind.refl (k : Nat) (l : List α) : GrowsBehind k l l :=
  ⟨Nat.le_refl _, fun _ _ _ => rfl⟩

theorem GrowsBehind.trans (h : GrowsBehind k before after) (h' : GrowsBehind k after later) :
    GrowsBehind k before later := by
  refine ⟨Nat.le_trans h.1 h'.1, fun i hk hi => ?_⟩
  rw [h'.2 i hk (Nat.lt_of_lt_of_le hi h.1), h.2 i hk hi]

theorem GrowsBehind.nil (k : Nat) (l : List α) : GrowsBehind k [] l :=
  ⟨Nat.zero_le _, fun _ _ hi => absurd hi (Nat.not_lt_zero _)⟩

theorem Mirrors.nil (k : Nat) : Mirrors k ([] : List α) [] := ⟨rfl, fun _ _ => rfl⟩

/-- Data that begins within the contents and ends behind them. -/
theorem overlay_within (hpos : n ≤ copy.length) {data : List α}
    (hend : copy.length ≤ n + data.length) : overlay zero copy n data = copy.take n ++ data := by
  unfold overlay
  rw [Nat.sub_eq_zero_of_le hpos, List.replicate_zero, List.append_nil, List.drop_of_length_le hend,
    List.append_nil]

/-- The rest of the original, from a place that the copy has reached, brings the copy up to
date. -/
theorem Mirrors.overlay_rest (h : Mirrors k copy before) (hgrow : GrowsBehind k before after)
    (hn : n ≤ before.length) : Mirrors k (overlay zero copy n (after.drop n)) after := by
  obtain ⟨hlen, hsame⟩ := h
  have hle := hgrow.1
  have htake : (copy.take n).length = n := List.length_take_of_le (by omega)
  rw [overlay_within (by omega) (by rw [List.length_drop]; omega)]
  refine ⟨by rw [List.length_append, htake, List.length_drop]; omega, fun i hi => ?_⟩
  rcases Nat.lt_or_ge i n with hlt | hge
  · rw [List.getElem?_append_left (by omega), List.getElem?_take_of_lt hlt, hsame i hi,
      hgrow.2 i hi (by omega)]
  · rw [List.getElem?_append_right (by omega), htake, List.getElem?_drop, Nat.add_sub_cancel' hge]

/-- The first elements, laid over a copy of the same length, complete it. -/
theorem Mirrors.overlay_head (h : Mirrors k copy before) (hgrow : GrowsBehind k before after)
    (hlen : after.length = before.length) : overlay zero copy 0 (after.take k) = after := by
  unfold overlay
  rw [List.take_zero, List.nil_append, Nat.zero_sub, List.replicate_zero, List.nil_append,
    Nat.zero_add]
  have hrest : copy.drop (after.take k).length = after.drop k := by
    refine List.ext_getElem? fun i => ?_
    rw [List.getElem?_drop, List.getElem?_drop, List.length_take]
    rcases Nat.lt_or_ge (k + i) after.length with hlt | hge
    · rw [Nat.min_eq_left (by omega), h.2 _ (Nat.le_add_right _ _),
        hgrow.2 _ (Nat.le_add_right _ _) (by omega)]
    · have hcopy := h.1
      rw [List.getElem?_eq_none hge, List.getElem?_eq_none (by omega)]
  rw [hrest, List.take_append_drop]

end MDesk.Core
