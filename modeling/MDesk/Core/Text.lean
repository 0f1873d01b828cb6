import Mathlib.Data.List.DropRight
import Mathlib.Data.List.Infix

/-!
# Texts

Texts as lists of characters: white space at their ends, the first occurrence of a text in
another one, and the parts between separators.
-/

namespace MDesk.Core

/-- The Unicode property `White_Space`, as `str::trim` uses it. -/
def isWhiteSpace (c : Char) : Bool :=
  (0x09 ≤ c.toNat && c.toNat ≤ 0x0d) ||
    [0x20, 0x85, 0xa0, 0x1680, 0x2028, 0x2029, 0x202f, 0x205f, 0x3000].contains c.toNat ||
    (0x2000 ≤ c.toNat && c.toNat ≤ 0x200a)

variable {α : Type*}

/-- What is decided of every member of a list, one after another. -/
theorem forall_mem_of_all {p : α → Prop} [DecidablePred p] {l : List α}
    (h : (l.all fun a => decide (p a)) = true) : ∀ a ∈ l, p a := by
  simpa using h

/-- Only letters are made small letters. -/
theorem eq_of_toLower {c d : Char} (hd : d.toNat < 97 ∨ 122 < d.toNat) (h : c.toLower = d) :
    c = d := by
  unfold Char.toLower at h
  split at h
  · next hupper =>
    have hval := congrArg Char.toNat h
    have hle : c.val.toNat ≤ 90 := hupper.2
    have hge : 65 ≤ c.val.toNat := hupper.1
    simp only [Char.toNat, UInt32.toNat_add] at hval hd
    have hshift : ('a'.val - 'A'.val).toNat = 32 := rfl
    omega
  · exact h

/-- Take what a condition holds of off both ends. -/
def trimEnds (p : α → Bool) (s : List α) : List α := (s.dropWhile p).rdropWhile p

/-- Nothing is taken off a text without such ends. -/
theorem trimEnds_eq_self {p : α → Bool} {s : List α} (hhead : ∀ c, s.head? = some c → p c = false)
    (hlast : ∀ c, s.getLast? = some c → p c = false) : trimEnds p s = s := by
  have hdrop : s.dropWhile p = s := by
    cases s with
    | nil => rfl
    | cons c s => rw [List.dropWhile_cons, hhead c rfl, if_neg Bool.false_ne_true]
  rw [trimEnds, hdrop, List.rdropWhile_eq_self_iff]
  intro hne
  rw [hlast _ (List.getLast?_eq_some_getLast hne)]
  exact Bool.false_ne_true

/-- A trimmed text starts with nothing that is taken off. -/
theorem head?_trimEnds {p : α → Bool} {s : List α} {c : α} (h : (trimEnds p s).head? = some c) :
    p c = false := by
  have hprefix : trimEnds p s <+: s.dropWhile p := List.rdropWhile_prefix p _
  have hhead : (s.dropWhile p).head? = some c := by
    obtain ⟨rest, hrest⟩ := hprefix
    rw [← hrest, List.head?_append, h]
    rfl
  have hnot := List.head?_dropWhile_not p s
  rw [hhead] at hnot
  simpa using hnot

/-- A trimmed text ends with nothing that is taken off. -/
theorem getLast?_trimEnds {p : α → Bool} {s : List α} {c : α}
    (h : (trimEnds p s).getLast? = some c) : p c = false := by
  have hne : (s.dropWhile p).rdropWhile p ≠ [] := by
    rintro hnil
    rw [trimEnds, hnil] at h
    cases h
  have hlast := List.rdropWhile_last_not p (s.dropWhile p) hne
  rw [trimEnds, List.getLast?_eq_some_getLast hne] at h
  rw [Option.some.inj h] at hlast
  simpa using hlast

/-- `trim` takes only what the text has. -/
theorem mem_of_mem_trimEnds {p : α → Bool} {s : List α} {c : α} (h : c ∈ trimEnds p s) : c ∈ s :=
  (List.dropWhile_sublist p).mem ((List.rdropWhile_prefix p _).subset h)

/-- No separator is left in a part. -/
theorem splitOnP_forall {p : α → Bool} {l x : List α} (hx : x ∈ l.splitOnP p) :
    ∀ c ∈ x, p c = false := by
  induction l generalizing x with
  | nil =>
    rw [List.splitOnP_nil, List.mem_singleton] at hx
    rw [hx]
    exact nofun
  | cons c l ih =>
    rw [List.splitOnP_cons_eq_if_modifyHead] at hx
    obtain ⟨y, ys, hy⟩ := List.exists_cons_of_ne_nil (List.splitOnP_ne_nil p l)
    split at hx
    · rcases List.mem_cons.mp hx with rfl | hx
      · exact nofun
      · exact ih hx
    · next hc =>
      rw [hy, List.modifyHead_cons] at hx
      rcases List.mem_cons.mp hx with rfl | hx
      · refine List.forall_mem_cons.mpr ⟨by simpa using hc, ih ?_⟩
        rw [hy]
        exact List.mem_cons_self
      · exact ih (by rw [hy]; exact List.mem_cons_of_mem _ hx)

/-- The parts have what the text has. -/
theorem mem_of_mem_splitOnP {p : α → Bool} {l x : List α} {c : α} (hx : x ∈ l.splitOnP p)
    (hc : c ∈ x) : c ∈ l := by
  induction l generalizing x with
  | nil =>
    rw [List.splitOnP_nil, List.mem_singleton] at hx
    rwa [hx] at hc
  | cons d l ih =>
    rw [List.splitOnP_cons_eq_if_modifyHead] at hx
    obtain ⟨y, ys, hy⟩ := List.exists_cons_of_ne_nil (List.splitOnP_ne_nil p l)
    split at hx
    · rcases List.mem_cons.mp hx with rfl | hx
      · cases hc
      · exact List.mem_cons_of_mem _ (ih hx hc)
    · rw [hy, List.modifyHead_cons] at hx
      rcases List.mem_cons.mp hx with rfl | hx
      · rcases List.mem_cons.mp hc with rfl | hc
        · exact List.mem_cons_self
        · exact List.mem_cons_of_mem _ (ih (by rw [hy]; exact List.mem_cons_self) hc)
      · exact List.mem_cons_of_mem _ (ih (by rw [hy]; exact List.mem_cons_of_mem _ hx) hc)

/-- A text goes on with an element behind what stands in front of its first occurrence. -/
theorem exists_takeWhile_append [DecidableEq α] {l : List α} {c : α} (h : c ∈ l) :
    ∃ rest, l = l.takeWhile (· ≠ c) ++ c :: rest := by
  induction l with
  | nil => cases h
  | cons d l ih =>
    by_cases hd : d = c
    · exact ⟨l, by simp [hd]⟩
    · obtain ⟨rest, hrest⟩ := ih ((List.mem_cons.mp h).resolve_left (Ne.symm hd))
      refine ⟨rest, ?_⟩
      rw [List.takeWhile_cons, if_pos (by simpa using hd), List.cons_append, ← hrest]

section First

variable [DecidableEq α] {sep s front rest : List α}

/-- What stands in front of and behind the first occurrence of a text. -/
def splitAtFirst (sep : List α) : List α → Option (List α × List α)
  | [] => if sep = [] then some ([], []) else none
  | c :: s =>
    if sep <+: c :: s then some ([], (c :: s).drop sep.length)
    else (splitAtFirst sep s).map fun parts => (c :: parts.1, parts.2)

theorem splitAtFirst_eq (h : splitAtFirst sep s = some (front, rest)) :
    s = front ++ sep ++ rest := by
  induction s generalizing front with
  | nil =>
    unfold splitAtFirst at h
    split_ifs at h with hsep
    cases h
    rw [hsep]
    rfl
  | cons c s ih =>
    unfold splitAtFirst at h
    split_ifs at h with hsep
    · cases h
      obtain ⟨behind, hbehind⟩ := hsep
      rw [← hbehind, List.drop_left]
      rfl
    · obtain ⟨⟨front', rest'⟩, hparts, heq⟩ := Option.map_eq_some_iff.mp h
      cases heq
      rw [ih hparts]
      rfl

/-- What is behind the first occurrence does not decide where it is. -/
theorem splitAtFirst_append (h : splitAtFirst sep s = some (front, rest)) (other : List α) :
    splitAtFirst sep (front ++ sep ++ other) = some (front, other) := by
  induction s generalizing front with
  | nil =>
    unfold splitAtFirst at h
    split_ifs at h with hsep
    cases h
    subst hsep
    cases other with
    | nil => rfl
    | cons c other =>
      rw [List.nil_append, List.nil_append, splitAtFirst, if_pos List.nil_prefix]
      rfl
  | cons c s ih =>
    have hs := splitAtFirst_eq h
    unfold splitAtFirst at h
    split_ifs at h with hsep
    · cases h
      cases hcases : sep ++ other with
      | nil =>
        obtain ⟨rfl, rfl⟩ := List.append_eq_nil_iff.mp hcases
        rfl
      | cons d others =>
        rw [List.nil_append, hcases, splitAtFirst, ← hcases, if_pos (List.prefix_append _ _),
          List.drop_left]
    · obtain ⟨⟨front', rest'⟩, hparts, heq⟩ := Option.map_eq_some_iff.mp h
      cases heq
      have hnot : ¬ sep <+: c :: (front' ++ sep ++ other) := by
        intro hpre
        refine hsep ?_
        rw [hs]
        have hshort : sep <+: c :: (front' ++ sep) := by
          refine List.prefix_of_prefix_length_le hpre ?_ (by simp; omega)
          exact ⟨other, by simp⟩
        exact hshort.trans ⟨rest', by simp⟩
      rw [List.cons_append, List.cons_append, splitAtFirst, if_neg hnot, ih hparts]
      rfl

/-- A text without an occurrence. -/
theorem not_infix_of_splitAtFirst (h : splitAtFirst sep s = none) : ¬ sep <:+: s := by
  induction s with
  | nil =>
    unfold splitAtFirst at h
    split_ifs at h with hsep
    exact fun hinfix => hsep (List.infix_nil.mp hinfix)
  | cons c s ih =>
    unfold splitAtFirst at h
    split_ifs at h with hsep
    intro hinfix
    rcases List.infix_cons_iff.mp hinfix with hpre | htail
    · exact hsep hpre
    · exact ih (Option.map_eq_none_iff.mp h) htail

/-- An occurrence is found. -/
theorem splitAtFirst_ne_none (h : sep <:+: s) : splitAtFirst sep s ≠ none := fun hnone =>
  not_infix_of_splitAtFirst hnone h

/-- Nothing in front of the first occurrence lets one start earlier. -/
theorem not_prefix_of_splitAtFirst (h : splitAtFirst sep s = some (front, rest)) {before : List α}
    (hbefore : before <+: front) (hne : before ≠ front) : ¬ before ++ sep <+: s := by
  induction s generalizing front before with
  | nil =>
    unfold splitAtFirst at h
    split_ifs at h
    cases h
    exact absurd (List.prefix_nil.mp hbefore) hne
  | cons c s ih =>
    unfold splitAtFirst at h
    split_ifs at h with hsep
    · cases h
      exact absurd (List.prefix_nil.mp hbefore) hne
    · obtain ⟨⟨front', rest'⟩, hparts, heq⟩ := Option.map_eq_some_iff.mp h
      cases heq
      cases before with
      | nil => exact hsep
      | cons d before =>
        obtain ⟨rfl, hbefore'⟩ := List.cons_prefix_cons.mp hbefore
        intro hpre
        refine ih hparts hbefore' (fun heq => hne (by rw [heq])) ?_
        rw [List.cons_append] at hpre
        exact (List.cons_prefix_cons.mp hpre).2

/-- The first occurrence is no later than another one. -/
theorem splitAtFirst_le (h : splitAtFirst sep s = some (front, rest)) {before : List α}
    (hbefore : before ++ sep <+: s) : front.length ≤ before.length := by
  by_contra hlt
  have hfront : front <+: s := ⟨sep ++ rest, by rw [splitAtFirst_eq h, List.append_assoc]⟩
  have hprefix : before <+: front := List.prefix_of_prefix_length_le
    ((List.prefix_append before sep).trans hbefore) hfront (by omega)
  apply not_prefix_of_splitAtFirst h hprefix _ hbefore
  rintro rfl
  exact hlt (Nat.le_refl _)

end First

end MDesk.Core
