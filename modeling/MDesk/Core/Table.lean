import Mathlib.Data.List.AList
import Mathlib.Logic.Equiv.Defs

/-!
# Tables

A finite table with one value a key: the operations of a hash map over association
lists. No result depends on the order of the entries.
-/

namespace MDesk.Core

/-- A finite table. -/
abbrev Table (κ ν : Type*) := AList fun _ : κ => ν

namespace Table

variable {κ ν : Type*} [DecidableEq κ]

/-- The value of a key. -/
def get (t : Table κ ν) (k : κ) : Option ν := AList.lookup k t

/-- The number of keys. -/
def len (t : Table κ ν) : Nat := t.entries.length

/-- Give a key a value. -/
def insert (t : Table κ ν) (k : κ) (v : ν) : Table κ ν := AList.insert k v t

/-- Drop a key. -/
def remove (t : Table κ ν) (k : κ) : Table κ ν := AList.erase k t

/-- Keep the entries a condition holds of. -/
def retain (t : Table κ ν) (p : κ → ν → Bool) : Table κ ν :=
  ⟨t.entries.filter fun e => p e.1 e.2, (List.filter_sublist.map Sigma.fst).nodup t.nodupKeys⟩

/-- Change every value. -/
def mapValues (t : Table κ ν) (f : ν → ν) : Table κ ν :=
  ⟨t.entries.map fun e => ⟨e.1, f e.2⟩, by
    rw [List.NodupKeys, List.keys, List.map_map]
    exact t.nodupKeys⟩

/-- Change every value, by its key. -/
def mapWithKey (t : Table κ ν) (f : κ → ν → ν) : Table κ ν :=
  ⟨t.entries.map fun e => ⟨e.1, f e.1 e.2⟩, by
    rw [List.NodupKeys, List.keys, List.map_map]
    exact t.nodupKeys⟩

/-- Put the entries of another table over those of a table. -/
def extend (t u : Table κ ν) : Table κ ν := u ∪ t

/-- Change the value of a key. -/
def modify (t : Table κ ν) (k : κ) (f : ν → ν) : Table κ ν :=
  match t.get k with
  | none => t
  | some v => t.insert k (f v)

variable {t : Table κ ν} {k k' : κ} {v : ν}

@[simp] theorem get_empty : get (∅ : Table κ ν) k = none := AList.lookup_empty k

theorem get_insert : (t.insert k v).get k' = if k' = k then some v else t.get k' := by
  unfold get insert
  split_ifs with h
  · rw [h]
    exact AList.lookup_insert t
  · exact AList.lookup_insert_ne h

@[simp] theorem get_insert_self : (t.insert k v).get k = some v := by rw [get_insert, if_pos rfl]

theorem get_insert_ne (h : k' ≠ k) : (t.insert k v).get k' = t.get k' := by
  rw [get_insert, if_neg h]

theorem get_remove : (t.remove k).get k' = if k' = k then none else t.get k' := by
  unfold get remove
  split_ifs with h
  · rw [h]
    exact AList.lookup_erase k t
  · exact AList.lookup_erase_ne h

theorem get_eq_some_iff : t.get k = some v ↔ ⟨k, v⟩ ∈ t.entries := AList.mem_lookup_iff

theorem get_extend (t u : Table κ ν) : (t.extend u).get k = (u.get k).or (t.get k) := by
  unfold extend get
  by_cases hk : k ∈ u
  · obtain ⟨v, hv⟩ := Option.isSome_iff_exists.mp (AList.lookup_isSome.mpr hk)
    rw [AList.lookup_union_left hk, hv]
    rfl
  · rw [AList.lookup_union_right hk, AList.lookup_eq_none.mpr hk]
    rfl

/-- The value of a key among the entries in any order. -/
theorem get_eq_of_perm {es : List (Sigma fun _ : κ => ν)} (h : es.Perm t.entries) :
    t.get k = es.dlookup k :=
  (List.perm_dlookup k ((List.perm_nodupKeys h).mpr t.nodupKeys) h).symm

theorem get_retain (p : κ → ν → Bool) : (t.retain p).get k = (t.get k).filter (p k) := by
  apply Option.ext
  intro v
  rw [get_eq_some_iff, retain, List.mem_filter, ← get_eq_some_iff, Option.filter_eq_some_iff]

/-- What is left of a key behind a filter. -/
theorem get_retain_eq_some_iff {p : κ → ν → Bool} :
    (t.retain p).get k = some v ↔ t.get k = some v ∧ p k v = true := by
  rw [get_retain, Option.filter_eq_some_iff]

theorem get_mapWithKey (f : κ → ν → ν) : (t.mapWithKey f).get k = (t.get k).map (f k) := by
  apply Option.ext
  intro v
  rw [get_eq_some_iff, mapWithKey, Option.map_eq_some_iff]
  simp only [List.mem_map, Sigma.mk.injEq, heq_eq_eq, get_eq_some_iff]
  constructor
  · rintro ⟨e, he, rfl, rfl⟩
    exact ⟨e.2, he, rfl⟩
  · rintro ⟨w, hw, rfl⟩
    exact ⟨⟨k, w⟩, hw, rfl, rfl⟩

theorem get_mapValues (f : ν → ν) : (t.mapValues f).get k = (t.get k).map f :=
  get_mapWithKey fun _ => f

theorem get_modify (f : ν → ν) :
    (t.modify k f).get k' = if k' = k then (t.get k).map f else t.get k' := by
  unfold modify
  cases hget : t.get k with
  | none =>
    by_cases heq : k' = k
    · rw [if_pos heq, heq, hget]
      rfl
    · rw [if_neg heq]
  | some v =>
    dsimp only
    rw [get_insert]
    rfl

section Length

/-- A key that is dropped counts no more. -/
theorem len_remove_of_some (h : t.get k = some v) : (t.remove k).len + 1 = t.len := by
  have hkey : k ∈ t := AList.lookup_isSome.mp (Option.isSome_of_eq_some h)
  obtain ⟨u, hu⟩ := List.exists_of_kerase (AList.mem_keys.mp hkey)
  obtain ⟨l₁, l₂, -, hentries, herase⟩ := hu
  show (t.entries.kerase k).length + 1 = t.entries.length
  rw [herase, hentries]
  simp only [List.length_append, List.length_cons]
  omega

theorem len_remove_of_none (h : t.get k = none) : (t.remove k).len = t.len := by
  have hkey : k ∉ t := fun hmem => by
    have hsome := AList.lookup_isSome.mpr hmem
    rw [show AList.lookup k t = none from h] at hsome
    cases hsome
  exact congrArg List.length (List.kerase_of_notMem_keys hkey)

theorem len_remove_le : (t.remove k).len ≤ t.len := by
  cases h : t.get k with
  | none => exact Nat.le_of_eq (len_remove_of_none h)
  | some v =>
    have hlen := len_remove_of_some h
    omega

theorem len_insert : (t.insert k v).len = (t.remove k).len + 1 := rfl

/-- A key that is there counts once. -/
theorem len_insert_of_some {w : ν} (h : t.get k = some w) : (t.insert k v).len = t.len := by
  rw [len_insert, len_remove_of_some h]

theorem len_insert_of_none (h : t.get k = none) : (t.insert k v).len = t.len + 1 := by
  rw [len_insert, len_remove_of_none h]

theorem len_modify (f : ν → ν) : (t.modify k f).len = t.len := by
  unfold modify
  cases h : t.get k with
  | none => rfl
  | some v => exact len_insert_of_some h

omit [DecidableEq κ] in
theorem len_mapValues (f : ν → ν) : (t.mapValues f).len = t.len := List.length_map _

omit [DecidableEq κ] in
theorem len_retain_le (p : κ → ν → Bool) : (t.retain p).len ≤ t.len := List.length_filter_le _ _

end Length

section Inverse

variable {μ : Type*} [DecidableEq μ] {e : ν ≃ μ} {u : Table μ κ}

/-- Each table gives back the key of the other one, up to a renaming of the values. -/
def Inverse (e : ν ≃ μ) (t : Table κ ν) (u : Table μ κ) : Prop :=
  ∀ k v, t.get k = some v ↔ u.get (e v) = some k

theorem inverse_empty : Inverse e (∅ : Table κ ν) ∅ := by
  intro k v
  rw [get_empty, get_empty]
  exact ⟨nofun, nofun⟩

/-- A new pair keeps the tables inverse exactly when it replaces no other pair. -/
theorem inverse_insert_iff (h : Inverse e t u) :
    Inverse e (t.insert k v) (u.insert (e v) k) ↔
      (∀ w, t.get k = some w → w = v) ∧ ∀ j, u.get (e v) = some j → j = k := by
  constructor
  · intro hinv
    refine ⟨fun w hw => ?_, fun j hj => ?_⟩
    · by_contra hne
      have hback := (hinv k w).mpr
      rw [get_insert_ne fun heq => hne (e.injective heq), get_insert_self] at hback
      exact hne (Option.some.inj (hback ((h k w).mp hw))).symm
    · by_contra hne
      have hback := (hinv j v).mp
      rw [get_insert_ne hne, get_insert_self] at hback
      exact hne (Option.some.inj (hback ((h j v).mpr hj))).symm
  · rintro ⟨hk, hv⟩ j w
    rw [get_insert, get_insert]
    by_cases hj : j = k
    · by_cases hw : e w = e v
      · rw [if_pos hj, if_pos hw, hj, e.injective hw]
        exact iff_of_true rfl rfl
      · rw [if_pos hj, if_neg hw, hj, ← h k w]
        refine ⟨fun heq => absurd (congrArg e (Option.some.inj heq).symm) hw, fun hget => ?_⟩
        rw [hk w hget]
    · by_cases hw : e w = e v
      · rw [if_neg hj, if_pos hw, h j w, hw]
        refine ⟨fun hget => ?_, fun heq => absurd (Option.some.inj heq).symm hj⟩
        rw [hv j hget]
      · rw [if_neg hj, if_neg hw, h j w]

/-- A pair may be taken out of both tables. -/
theorem Inverse.remove (h : Inverse e t u) (hk : t.get k = some v) :
    Inverse e (t.remove k) (u.remove (e v)) := by
  intro j w
  rw [get_remove, get_remove]
  by_cases hj : j = k
  · by_cases hw : e w = e v
    · rw [if_pos hj, if_pos hw]
      exact ⟨nofun, nofun⟩
    · rw [if_pos hj, if_neg hw, ← h j w, hj, hk]
      exact ⟨nofun, fun heq => absurd (congrArg e (Option.some.inj heq)).symm hw⟩
  · by_cases hw : e w = e v
    · rw [if_neg hj, if_pos hw, h j w, hw, (h k v).mp hk]
      exact ⟨fun heq => absurd (Option.some.inj heq).symm hj, nofun⟩
    · rw [if_neg hj, if_neg hw, h j w]

/-- The same pairs may be dropped from both tables. -/
theorem Inverse.retain (h : Inverse e t u) {p : κ → ν → Bool} {q : μ → κ → Bool}
    (hpq : ∀ k v, p k v = q (e v) k) : Inverse e (t.retain p) (u.retain q) := by
  intro k v
  rw [get_retain_eq_some_iff, get_retain_eq_some_iff, h k v, hpq]

end Inverse

end Table

end MDesk.Core
