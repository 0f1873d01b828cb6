import MDesk.Core.Run
import MDesk.Core.Table

/-!
# Items settled once

Items are opened under keys and settled by their key. A key may be opened again while its
item is open, which loses the item: it can never be settled. Once nothing is open any more,
every item has been settled exactly once if and only if no item was lost that way.
-/

namespace MDesk.Core

/-- The open items of a table of keys, with all that were opened, settled or lost. -/
structure Ledger (κ ι σ : Type*) where
  held : Table κ ι := ∅
  opened : List ι := []
  settled : List (ι × σ) := []
  lost : List ι := []

namespace Ledger

variable {κ ι σ : Type*} [DecidableEq κ]

/-- Open an item under a key. -/
def openItem (l : Ledger κ ι σ) (k : κ) (i : ι) : Ledger κ ι σ :=
  { l with
    held := l.held.insert k i
    opened := l.opened ++ [i]
    lost := l.lost ++ (l.held.get k).toList }

/-- Settle the item of a key, if there is one. -/
def settle (l : Ledger κ ι σ) (k : κ) (s : σ) : Ledger κ ι σ :=
  match l.held.get k with
  | none => l
  | some i => { l with held := l.held.remove k, settled := l.settled ++ [(i, s)] }

/-- Every item that was opened is held under one key, has been settled once, or is lost. -/
structure Sound (l : Ledger κ ι σ) : Prop where
  nodup : l.opened.Nodup
  once : (l.settled.map Prod.fst).Nodup
  mem_iff : ∀ i, i ∈ l.opened ↔
    i ∈ l.settled.map Prod.fst ∨ i ∈ l.lost ∨ ∃ k, l.held.get k = some i
  settled_lost : ∀ i ∈ l.settled.map Prod.fst, i ∉ l.lost
  held_open : ∀ k i, l.held.get k = some i → i ∉ l.settled.map Prod.fst ∧ i ∉ l.lost
  injective : ∀ k k' i, l.held.get k = some i → l.held.get k' = some i → k = k'

variable {l : Ledger κ ι σ} {k : κ} {i : ι} {s : σ}

theorem sound_empty : (({} : Ledger κ ι σ)).Sound where
  nodup := .nil
  once := .nil
  mem_iff i := by simp
  settled_lost := by simp
  held_open := by simp
  injective := by simp

/-- A new item keeps the ledger sound. -/
theorem Sound.openItem (h : l.Sound) (hnew : i ∉ l.opened) : (l.openItem k i).Sound := by
  have hsettled : i ∉ l.settled.map Prod.fst := fun hi => hnew ((h.mem_iff i).mpr (.inl hi))
  have hlost : i ∉ l.lost := fun hi => hnew ((h.mem_iff i).mpr (.inr (.inl hi)))
  have hheld : ∀ k', l.held.get k' ≠ some i := fun k' hi =>
    hnew ((h.mem_iff i).mpr (.inr (.inr ⟨k', hi⟩)))
  have hlost' : ∀ j, j ∈ (l.openItem k i).lost ↔ j ∈ l.lost ∨ l.held.get k = some j := by
    intro j
    rw [Ledger.openItem, List.mem_append, Option.mem_toList]
  have hget : ∀ k' j, (l.openItem k i).held.get k' = some j ↔
      (k' = k ∧ j = i) ∨ (k' ≠ k ∧ l.held.get k' = some j) := by
    intro k' j
    rw [Ledger.openItem, Table.get_insert]
    split_ifs with hk <;> simp [hk, eq_comm]
  refine ⟨?_, h.once, fun j => ?_, fun j hj => ?_, fun k' j hj => ?_, fun k' k'' j hj hj' => ?_⟩
  · rw [Ledger.openItem, ← List.concat_eq_append, List.nodup_concat]
    exact ⟨hnew, h.nodup⟩
  · rw [hlost', Ledger.openItem, List.mem_append, List.mem_singleton, h.mem_iff]
    constructor
    · rintro ((hj | hj | ⟨k', hj⟩) | rfl)
      · exact .inl hj
      · exact .inr (.inl (.inl hj))
      · by_cases hk : k' = k
        · exact .inr (.inl (.inr (hk ▸ hj)))
        · exact .inr (.inr ⟨k', (hget k' j).mpr (.inr ⟨hk, hj⟩)⟩)
      · exact .inr (.inr ⟨k, (hget k j).mpr (.inl ⟨rfl, rfl⟩)⟩)
    · rintro (hj | (hj | hj) | ⟨k', hj⟩)
      · exact .inl (.inl hj)
      · exact .inl (.inr (.inl hj))
      · exact .inl (.inr (.inr ⟨k, hj⟩))
      · rcases (hget k' j).mp hj with ⟨-, rfl⟩ | ⟨-, hj⟩
        · exact .inr rfl
        · exact .inl (.inr (.inr ⟨k', hj⟩))
  · rw [hlost']
    rintro (hin | hin)
    · exact h.settled_lost j hj hin
    · exact (h.held_open k j hin).1 hj
  · rw [hlost']
    rcases (hget k' j).mp hj with ⟨-, rfl⟩ | ⟨hk, hj⟩
    · refine ⟨hsettled, ?_⟩
      rintro (hin | hin)
      · exact hlost hin
      · exact hheld k hin
    · refine ⟨(h.held_open k' j hj).1, ?_⟩
      rintro (hin | hin)
      · exact (h.held_open k' j hj).2 hin
      · exact hk (h.injective k' k j hj hin)
  · rcases (hget k' j).mp hj with ⟨hk, rfl⟩ | ⟨hk, hj⟩
    · rcases (hget k'' j).mp hj' with ⟨hk', -⟩ | ⟨-, hj'⟩
      · rw [hk, hk']
      · exact absurd hj' (hheld k'')
    · rcases (hget k'' j).mp hj' with ⟨-, hij⟩ | ⟨-, hj'⟩
      · exact absurd hj (hij ▸ hheld k')
      · exact h.injective k' k'' j hj hj'

/-- Settling an item keeps the ledger sound. -/
theorem Sound.settle (h : l.Sound) : (l.settle k s).Sound := by
  unfold Ledger.settle
  split
  · exact h
  · rename_i i hi
    obtain ⟨hnot, hlost⟩ := h.held_open k i hi
    have hget : ∀ k' j, (l.held.remove k).get k' = some j ↔ k' ≠ k ∧ l.held.get k' = some j := by
      intro k' j
      rw [Table.get_remove]
      split_ifs with hk <;> simp [hk]
    have hsettled : ∀ j, j ∈ (l.settled ++ [(i, s)]).map Prod.fst ↔
        j ∈ l.settled.map Prod.fst ∨ j = i := by
      intro j
      rw [List.map_append, List.mem_append, List.map_singleton, List.mem_singleton]
    refine ⟨h.nodup, ?_, fun j => ?_, fun j hj => ?_, fun k' j hj => ?_,
      fun k' k'' j hj hj' => ?_⟩
    · rw [List.map_append, List.map_singleton, ← List.concat_eq_append, List.nodup_concat]
      exact ⟨hnot, h.once⟩
    · rw [h.mem_iff, hsettled]
      constructor
      · rintro (hj | hj | ⟨k', hj⟩)
        · exact .inl (.inl hj)
        · exact .inr (.inl hj)
        · by_cases hk : k' = k
          · rw [hk, hi] at hj
            exact .inl (.inr (Option.some.inj hj).symm)
          · exact .inr (.inr ⟨k', (hget k' j).mpr ⟨hk, hj⟩⟩)
      · rintro ((hj | rfl) | hj | ⟨k', hj⟩)
        · exact .inl hj
        · exact .inr (.inr ⟨k, hi⟩)
        · exact .inr (.inl hj)
        · exact .inr (.inr ⟨k', ((hget k' j).mp hj).2⟩)
    · rcases (hsettled j).mp hj with hj | rfl
      · exact h.settled_lost j hj
      · exact hlost
    · obtain ⟨hk, hheld⟩ := (hget k' j).mp hj
      refine ⟨fun hin => ?_, (h.held_open k' j hheld).2⟩
      rcases (hsettled j).mp hin with hin | rfl
      · exact (h.held_open k' j hheld).1 hin
      · exact hk (h.injective k' k j hheld hi)
    · exact h.injective k' k'' j ((hget k' j).mp hj).2 ((hget k'' j).mp hj').2

/-- With nothing open any more, every item has been settled if and only if none is lost. -/
theorem Sound.settled_iff (h : l.Sound) (hempty : ∀ k, l.held.get k = none) :
    (∀ i ∈ l.opened, i ∈ l.settled.map Prod.fst) ↔ l.lost = [] := by
  constructor
  · intro hall
    by_contra hne
    obtain ⟨i, hi⟩ := List.exists_mem_of_ne_nil _ hne
    exact h.settled_lost i (hall i ((h.mem_iff i).mpr (.inr (.inl hi)))) hi
  · intro hlost i hi
    rcases (h.mem_iff i).mp hi with hin | hin | ⟨k, hin⟩
    · exact hin
    · rw [hlost] at hin
      cases hin
    · rw [hempty k] at hin
      cases hin

@[simp] theorem settle_lost : (l.settle k s).lost = l.lost := by
  unfold settle
  split <;> rfl

end Ledger

end MDesk.Core
