import MDesk.Core.Table

/-!
# What a table holds

The items of all values of a table. Only their number counts, so what an operation does to
them is stated up to their order.
-/

namespace MDesk.Core.Table

variable {κ ν α : Type*} [DecidableEq κ] {t : Table κ ν} {k : κ} {v : ν} {f : κ → ν → List α}

omit [DecidableEq κ] in
/-- The items of all values. -/
def collect (t : Table κ ν) (f : κ → ν → List α) : List α := t.entries.flatMap fun e => f e.1 e.2

omit [DecidableEq κ] in
@[simp] theorem collect_empty : (∅ : Table κ ν).collect f = [] := rfl

theorem mem_collect {a : α} : a ∈ t.collect f ↔ ∃ k v, t.get k = some v ∧ a ∈ f k v := by
  unfold collect
  rw [List.mem_flatMap]
  constructor
  · rintro ⟨⟨k, v⟩, he, ha⟩
    exact ⟨k, v, get_eq_some_iff.mpr he, ha⟩
  · rintro ⟨k, v, he, ha⟩
    exact ⟨⟨k, v⟩, get_eq_some_iff.mp he, ha⟩

/-- The items of a key come first in the table that gives it a value. -/
theorem collect_insert : (t.insert k v).collect f = f k v ++ (t.remove k).collect f := rfl

theorem remove_of_none (h : t.get k = none) : t.remove k = t := by
  have hkey : k ∉ t := AList.lookup_eq_none.mp h
  apply AList.ext
  exact List.kerase_of_notMem_keys hkey

theorem collect_insert_of_none (h : t.get k = none) :
    (t.insert k v).collect f = f k v ++ t.collect f := by
  rw [collect_insert, remove_of_none h]

/-- The items of a key, and those of the others. -/
theorem perm_collect (h : t.get k = some v) :
    (t.collect f).Perm (f k v ++ (t.remove k).collect f) := by
  have hkey : k ∈ t := AList.lookup_isSome.mp (Option.isSome_of_eq_some h)
  obtain ⟨w, l₁, l₂, -, hentries, herase⟩ := List.exists_of_kerase (AList.mem_keys.mp hkey)
  have hw : w = v := by
    have hmem : (⟨k, w⟩ : Sigma fun _ : κ => ν) ∈ t.entries := by
      rw [hentries]
      exact List.mem_append_right _ List.mem_cons_self
    exact Option.some.inj ((get_eq_some_iff.mpr hmem).symm.trans h)
  have hremove : (t.remove k).entries = l₁ ++ l₂ := herase
  unfold collect
  rw [hremove, hentries, hw, List.flatMap_append, List.flatMap_append, List.flatMap_cons]
  exact List.perm_append_comm_assoc _ _ _

omit [DecidableEq κ] in
theorem collect_mapWithKey (g : κ → ν → ν) :
    (t.mapWithKey g).collect f = t.collect fun k v => f k (g k v) := by
  unfold collect mapWithKey
  rw [List.flatMap_map]

omit [DecidableEq κ] in
/-- The items of the values that are kept. -/
theorem collect_retain (p : κ → ν → Bool) :
    (t.retain p).collect f = t.collect fun k v => if p k v then f k v else [] := by
  unfold collect retain
  dsimp only
  induction t.entries with
  | nil => rfl
  | cons e es ih =>
    rw [List.flatMap_cons, ← ih, List.filter_cons]
    by_cases hp : p e.1 e.2 = true
    · rw [if_pos hp, if_pos hp, List.flatMap_cons]
    · rw [if_neg hp, if_neg hp, List.nil_append]

omit [DecidableEq κ] in
/-- The items of the values that are kept, and of the others. -/
theorem perm_collect_retain (p : κ → ν → Bool) :
    (t.collect f).Perm
      ((t.retain p).collect f ++ (t.retain fun k v => !p k v).collect f) := by
  unfold collect retain
  rw [← List.flatMap_append]
  have hsplit := List.filter_append_perm (fun e : Sigma fun _ : κ => ν => p e.1 e.2) t.entries
  exact hsplit.symm.flatMap_right _

section Count

variable [DecidableEq α] {a : α} {w : ν}

theorem count_remove (h : t.get k = some v) :
    (t.collect f).count a = (f k v).count a + ((t.remove k).collect f).count a := by
  rw [(perm_collect h).count_eq, List.count_append]

/-- A value is replaced. -/
theorem count_insert (h : t.get k = some v) :
    ((t.insert k w).collect f).count a + (f k v).count a =
      (t.collect f).count a + (f k w).count a := by
  rw [count_remove h, collect_insert, List.count_append]
  omega

theorem count_insert_of_none (h : t.get k = none) :
    ((t.insert k v).collect f).count a = (f k v).count a + (t.collect f).count a := by
  rw [collect_insert_of_none h, List.count_append]

omit [DecidableEq κ] in
theorem count_retain (p : κ → ν → Bool) :
    (t.collect f).count a = ((t.retain p).collect f).count a +
      ((t.retain fun k v => !p k v).collect f).count a := by
  rw [(perm_collect_retain p).count_eq, List.count_append]

omit [DecidableEq κ] in
/-- Each value has the items of two kinds. -/
theorem count_split {g h : κ → ν → List α}
    (hsplit : ∀ k v, (f k v).count a = (g k v).count a + (h k v).count a) :
    (t.collect f).count a = (t.collect g).count a + (t.collect h).count a := by
  unfold collect
  induction t.entries with
  | nil => rfl
  | cons e es ih =>
    rw [List.flatMap_cons, List.flatMap_cons, List.flatMap_cons, List.count_append,
      List.count_append, List.count_append, ih, hsplit]
    omega

end Count

end MDesk.Core.Table
