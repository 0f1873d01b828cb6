import Mathlib.Data.List.Induction

/-!
# The most frequent member of a list

The members of a list are counted one after another, each in the order it came first. The first one
with the largest count wins.
-/

namespace MDesk.Core

variable {α : Type*} [DecidableEq α]

/-- Count one more of a member. -/
def bump : List (α × Nat) → α → List (α × Nat)
  | [], a => [(a, 1)]
  | (b, n) :: rest, a => if b = a then (b, n + 1) :: rest else (b, n) :: bump rest a

/-- How often each member occurs. -/
def tally (l : List α) : List (α × Nat) := l.foldl bump []

/-- The first member with the largest count. -/
def mostFrequent (l : List α) : Option α :=
  let maxCount := ((tally l).map Prod.snd).max?.getD 0
  ((tally l).find? fun e => e.2 = maxCount).map Prod.fst

/-- A member that no other one outnumbers, and that comes before all with as many. -/
def Elects (l : List α) (a : α) : Prop :=
  ∃ pre post, l = pre ++ a :: post ∧ (∀ b ∈ l, l.count b ≤ l.count a) ∧
    ∀ b ∈ pre, l.count b < l.count a

variable {l ks : List α} {a b : α} {f : α → Nat}

theorem tally_concat (l : List α) (a : α) : tally (l ++ [a]) = bump (tally l) a := by
  rw [tally, List.foldl_append]
  rfl

/-- One more of a member adds one to its count, or a count at the end. -/
theorem bump_map (h : ks.Nodup) : bump (ks.map fun b => (b, f b)) a =
    if a ∈ ks then ks.map fun b => (b, if b = a then f b + 1 else f b)
    else (ks.map fun b => (b, f b)) ++ [(a, 1)] := by
  induction ks with
  | nil => rfl
  | cons c ks ih =>
    obtain ⟨hc, hks⟩ := List.nodup_cons.mp h
    rw [List.map_cons, bump]
    by_cases hca : c = a
    · subst hca
      have hsame : (ks.map fun b => (b, if b = c then f b + 1 else f b)) =
          ks.map fun b => (b, f b) := by
        refine List.map_congr_left fun b hb => ?_
        rw [if_neg]
        rintro rfl
        exact hc hb
      rw [if_pos rfl, if_pos List.mem_cons_self, List.map_cons, if_pos rfl, hsame]
    · rw [if_neg hca, ih hks]
      by_cases ha : a ∈ ks
      · rw [if_pos ha, if_pos (List.mem_cons_of_mem c ha), List.map_cons, if_neg hca]
      · rw [if_neg ha, if_neg, List.cons_append]
        rw [List.mem_cons, not_or]
        exact ⟨Ne.symm hca, ha⟩

/-- The members in the order they come first. -/
structure Firsts (l ks : List α) : Prop where
  nodup : ks.Nodup
  mem_iff : ∀ b, b ∈ ks ↔ b ∈ l
  before : ∀ k₁ a k₂, ks = k₁ ++ a :: k₂ →
    ∃ pre post, l = pre ++ a :: post ∧ ∀ b ∈ pre, b ∈ k₁

omit [DecidableEq α] in
theorem Firsts.old (h : Firsts l ks) (ha : a ∈ ks) : Firsts (l ++ [a]) ks where
  nodup := h.nodup
  mem_iff b := by
    rw [List.mem_append, List.mem_singleton, h.mem_iff]
    refine ⟨.inl, ?_⟩
    rintro (hb | rfl)
    · exact hb
    · exact (h.mem_iff b).mp ha
  before k₁ b k₂ hks := by
    obtain ⟨pre, post, rfl, hpre⟩ := h.before k₁ b k₂ hks
    exact ⟨pre, post ++ [a], by simp, hpre⟩

omit [DecidableEq α] in
theorem Firsts.new (h : Firsts l ks) (ha : a ∉ ks) : Firsts (l ++ [a]) (ks ++ [a]) where
  nodup := by
    rw [List.nodup_append]
    refine ⟨h.nodup, List.pairwise_singleton _ a, fun b hb c hc => ?_⟩
    rw [List.mem_singleton.mp hc]
    rintro rfl
    exact ha hb
  mem_iff b := by rw [List.mem_append, List.mem_append, h.mem_iff]
  before k₁ b k₂ hks := by
    rcases List.eq_nil_or_concat k₂ with rfl | ⟨k₂, c, rfl⟩
    · obtain ⟨rfl, hb⟩ := List.append_inj' hks rfl
      obtain rfl : a = b := (List.cons.inj hb).1
      exact ⟨l, [], rfl, fun c hc => (h.mem_iff c).mpr hc⟩
    · have hks' : ks ++ [a] = (k₁ ++ b :: k₂) ++ [c] := by simpa using hks
      obtain ⟨hks'', -⟩ := List.append_inj' hks' rfl
      obtain ⟨pre, post, rfl, hpre⟩ := h.before k₁ b k₂ hks''
      exact ⟨pre, post ++ [a], by simp, hpre⟩

/-- Each member stands in the tally with its count. -/
theorem tally_spec (l : List α) : ∃ ks, Firsts l ks ∧ tally l = ks.map fun b => (b, l.count b) := by
  induction l using List.reverseRecOn with
  | nil =>
    refine ⟨[], ⟨List.nodup_nil, fun _ => Iff.rfl, fun k₁ a k₂ hks => ?_⟩, rfl⟩
    exact absurd hks.symm (by simp)
  | append_singleton l a ih =>
    obtain ⟨ks, hfirsts, htally⟩ := ih
    rw [tally_concat, htally, bump_map hfirsts.nodup]
    by_cases ha : a ∈ ks
    · refine ⟨ks, hfirsts.old ha, ?_⟩
      rw [if_pos ha]
      refine List.map_congr_left fun b _ => ?_
      rw [List.count_append, List.count_singleton]
      by_cases hba : b = a
      · rw [if_pos hba, if_pos (by simp [hba])]
      · rw [if_neg hba, if_neg (by simpa using Ne.symm hba), Nat.add_zero]
    · refine ⟨ks ++ [a], hfirsts.new ha, ?_⟩
      have hcount : l.count a = 0 :=
        List.count_eq_zero.mpr fun hl => ha ((hfirsts.mem_iff a).mpr hl)
      rw [if_neg ha, List.map_append, List.map_singleton, List.count_append, hcount,
        List.count_singleton_self]
      congr 1
      refine List.map_congr_left fun b hb => ?_
      have hba : a ≠ b := by
        rintro rfl
        exact ha hb
      rw [List.count_append, List.count_singleton, if_neg (by simpa using hba), Nat.add_zero]

theorem elects_unique (ha : Elects l a) (hb : Elects l b) : a = b := by
  obtain ⟨pre, post, hl, hmax, hbefore⟩ := ha
  obtain ⟨pre', post', hl', hmax', hbefore'⟩ := hb
  have hmem : a ∈ l := hl ▸ List.mem_append_right _ List.mem_cons_self
  have hmem' : b ∈ l := hl' ▸ List.mem_append_right _ List.mem_cons_self
  have hle := hmax b hmem'
  have hle' := hmax' a hmem
  rw [hl] at hl'
  rcases List.append_eq_append_iff.mp hl' with ⟨mid, hpre, hrest⟩ | ⟨mid, hpre, hrest⟩
  · cases mid with
    | nil => exact (List.cons.inj hrest).1
    | cons c mid =>
      obtain ⟨rfl, -⟩ := List.cons.inj hrest
      have hlt := hbefore' a (by simp [hpre])
      omega
  · cases mid with
    | nil => exact (List.cons.inj hrest).1.symm
    | cons c mid =>
      obtain ⟨rfl, -⟩ := List.cons.inj hrest
      have hlt := hbefore b (by simp [hpre])
      omega

/-- The members of a list that is not empty elect one. -/
theorem mostFrequent_spec (hl : l ≠ []) : ∃ a, mostFrequent l = some a ∧ Elects l a := by
  obtain ⟨ks, hfirsts, htally⟩ := tally_spec l
  have hcounts : (tally l).map Prod.snd = ks.map fun b => l.count b := by
    rw [htally, List.map_map]
    rfl
  obtain ⟨b, hb⟩ := List.exists_mem_of_ne_nil l hl
  have hne : (ks.map fun b => l.count b) ≠ [] :=
    List.ne_nil_of_mem (List.mem_map_of_mem ((hfirsts.mem_iff b).mpr hb))
  obtain ⟨m, hm⟩ := Option.isSome_iff_exists.mp (List.isSome_max?_of_ne_nil hne)
  obtain ⟨hmem, hmax⟩ := List.max?_eq_some_iff.mp hm
  obtain ⟨c, hc, hcm⟩ := List.mem_map.mp hmem
  obtain ⟨a, ha⟩ : ∃ a, ks.find? (fun b => l.count b = m) = some a := by
    rw [← Option.isSome_iff_exists, List.find?_isSome]
    exact ⟨c, hc, by simpa using hcm⟩
  obtain ⟨hcount, k₁, k₂, hks, hbefore⟩ := List.find?_eq_some_iff_append.mp ha
  simp only [decide_eq_true_eq] at hcount
  have hle (b : α) (hb : b ∈ l) : l.count b ≤ m :=
    hmax _ (List.mem_map_of_mem ((hfirsts.mem_iff b).mpr hb))
  refine ⟨a, ?_, ?_⟩
  · rw [mostFrequent, hcounts, hm, htally, List.find?_map]
    show ((ks.find? fun b => l.count b = m).map _).map _ = _
    rw [ha]
    rfl
  · obtain ⟨pre, post, hpre, hfirst⟩ := hfirsts.before k₁ a k₂ hks
    refine ⟨pre, post, hpre, fun b hb => hcount ▸ hle b hb, fun b hb => ?_⟩
    have hother := hbefore b (hfirst b hb)
    simp only [Bool.not_eq_true', decide_eq_false_iff_not] at hother
    have hlt := hle b (hpre ▸ List.mem_append_left _ hb)
    omega

/-- The winner is the member that is elected. -/
theorem mostFrequent_eq_some_iff : mostFrequent l = some a ↔ Elects l a := by
  have hnonempty (h : Elects l a) : l ≠ [] := by
    obtain ⟨pre, post, rfl, -⟩ := h
    simp
  constructor
  · intro h
    have hl : l ≠ [] := by
      rintro rfl
      cases h
    obtain ⟨b, hb, helects⟩ := mostFrequent_spec hl
    rw [h, Option.some_inj] at hb
    exact hb ▸ helects
  · intro h
    obtain ⟨b, hb, helects⟩ := mostFrequent_spec (hnonempty h)
    rw [hb, elects_unique h helects]

theorem mostFrequent_eq_none_iff : mostFrequent l = none ↔ l = [] := by
  constructor
  · intro h
    by_contra hl
    obtain ⟨b, hb, -⟩ := mostFrequent_spec hl
    rw [h] at hb
    cases hb
  · rintro rfl
    rfl

end MDesk.Core
