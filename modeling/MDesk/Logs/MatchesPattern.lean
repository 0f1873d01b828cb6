import MDesk.Core.Glob
import MDesk.Transfer.Path

/-!
# File patterns of a log collection

A collection names the log files it wants by patterns. The matcher walks the pattern and the name
at once and remembers the last `*` it met: where the walk gets stuck it goes back there and lets
the `*` take one character more. Every way back forgets the earlier stars for good, which is right
because the segments between stars may always be taken at the first place they fit.
-/

namespace MDesk.LogAnalysis

open MDesk.Core.Glob

/-- What a character of a pattern stands for. -/
def token (c : Char) : Token Char :=
  if c = '*' then .many else if c = '?' then .one else .lit c

@[simp] theorem token_star : token '*' = .many := rfl

@[simp] theorem token_question : token '?' = .one := rfl

theorem token_eq_many {c : Char} : token c = .many ↔ c = '*' := by
  unfold token
  split
  · next h => simp [h]
  · next h => split <;> simp [h]

theorem token_of_ne {c : Char} (hstar : c ≠ '*') (hquestion : c ≠ '?') : token c = .lit c := by
  rw [token, if_neg hstar, if_neg hquestion]

/-- The variables of the matching loop. -/
structure Scan where
  i : Nat
  j : Nat
  star : Option Nat
  mark : Nat
  mark_le : mark ≤ j

namespace Scan

def first : Scan := { i := 0, j := 0, star := none, mark := 0, mark_le := Nat.le_refl 0 }

/-- One round of the loop, which `return false` leaves without a next one. -/
def round (p n : List Char) (c : Scan) : Option Scan :=
  if c.i < p.length ∧ (p[c.i]? = some '?' ∨ p[c.i]? = n[c.j]?) then
    some { c with i := c.i + 1, j := c.j + 1, mark_le := Nat.le_succ_of_le c.mark_le }
  else if c.i < p.length ∧ p[c.i]? = some '*' then
    some { i := c.i + 1, j := c.j, star := some c.i, mark := c.j, mark_le := Nat.le_refl c.j }
  else
    match c.star with
    | some s =>
      some { i := s + 1, j := c.mark + 1, star := some s, mark := c.mark + 1,
             mark_le := Nat.le_refl _ }
    | none => none

/-- The loop goes on from one state to the next. -/
def Next (p n : List Char) (c' c : Scan) : Prop :=
  c.j < n.length ∧ c.round p n = some c'

/-- What is left of the name behind the last `*`, of the name, and of the pattern. -/
def left (p n : List Char) (c : Scan) : Nat × Nat × Nat :=
  (n.length - c.mark, n.length - c.j, p.length - c.i)

/-- Every round gives up a place of the last `*`, or goes on in the name or in the pattern. -/
theorem left_lt {p n : List Char} {c c' : Scan} (h : Next p n c' c) :
    Prod.Lex (· < ·) (Prod.Lex (· < ·) (· < ·)) (c'.left p n) (c.left p n) := by
  obtain ⟨hj, hround⟩ := h
  have hmark := c.mark_le
  simp only [left, Prod.lex_def]
  unfold round at hround
  split at hround
  · cases hround
    simp only [true_and]
    omega
  split at hround
  · cases hround
    simp only [true_and]
    omega
  · cases hs : c.star with
    | none => rw [hs] at hround; cases hround
    | some s =>
      rw [hs] at hround
      cases hround
      simp only
      omega

/-- The matching loop ends, whatever state it starts from. -/
theorem next_wf (p n : List Char) : WellFounded (Next p n) :=
  Subrelation.wf left_lt (InvImage.wf (left p n)
    (Prod.lex Nat.lt_wfRel (Prod.lex Nat.lt_wfRel Nat.lt_wfRel)).wf)

end Scan

/-- The last loop: over the stars the pattern ends with. -/
def skipStars (p : List Char) (i : Nat) : Nat :=
  i + ((p.drop i).takeWhile (· = '*')).length

/-- The matching loop and what follows it. -/
def Scan.run (p n : List Char) (c : Scan) : Bool :=
  if _ : c.j < n.length then
    match _ : c.round p n with
    | some c' => Scan.run p n c'
    | none => false
  else
    skipStars p c.i == p.length
termination_by c.left p n
decreasing_by
  exact Scan.left_lt ⟨‹_›, ‹_›⟩

/-- The `matches_pattern` function. -/
def matchesPattern (P : Platform) (pattern name : String) : Bool :=
  Scan.first.run (P.toLowercase pattern).toList (P.toLowercase name).toList

/-- The rest of a pattern stands for the rest of a name. -/
def Rest (p n : List Char) (i j : Nat) : Prop :=
  Matches ((p.map token).drop i) (n.drop j)

section Rest

variable {p n : List Char} {i j s : Nat}

theorem map_token_drop (hi : i < p.length) :
    (p.map token).drop i = token p[i] :: (p.map token).drop (i + 1) := by
  rw [List.drop_eq_getElem_cons (by simpa using hi), List.getElem_map]

/-- A step in the pattern and the name. -/
theorem rest_eat (hi : i < p.length) (hj : j < n.length) (hstar : p[i] ≠ '*')
    (h : p[i] = '?' ∨ p[i] = n[j]) : Rest p n i j ↔ Rest p n (i + 1) (j + 1) := by
  unfold Rest
  rw [map_token_drop hi, List.drop_eq_getElem_cons hj]
  by_cases hquestion : p[i] = '?'
  · rw [hquestion, token_question, matches_one_cons]
  · rw [token_of_ne hstar hquestion, matches_lit_cons]
    simp [h.resolve_left hquestion]

/-- A character that the pattern does not have at its place. -/
theorem not_rest (hj : j < n.length) (hstar : p[i]? ≠ some '*') (hquestion : p[i]? ≠ some '?')
    (hne : p[i]? ≠ n[j]?) : ¬ Rest p n i j := by
  unfold Rest
  rw [List.drop_eq_getElem_cons hj]
  by_cases hi : i < p.length
  · rw [List.getElem?_eq_getElem hi] at hstar hquestion hne
    rw [List.getElem?_eq_getElem hj] at hne
    rw [map_token_drop hi, token_of_ne (by simpa using hstar) (by simpa using hquestion),
      matches_lit_cons]
    intro h
    exact hne (congrArg some h.1)
  · rw [List.drop_eq_nil_of_le (by simpa using hi)]
    simpa using hj

/-- A star in the pattern may end at any place of the name that is still ahead. -/
theorem rest_star (hi : i < p.length) (hj : j ≤ n.length) (hstar : p[i] = '*') :
    Rest p n i j ↔ ∃ k, j ≤ k ∧ k ≤ n.length ∧ Rest p n (i + 1) k := by
  unfold Rest
  rw [map_token_drop hi, hstar, token_star, exists_matches_many hj]

/-- At the end of the name only stars may be left. -/
theorem rest_end (hi : i ≤ p.length) : Rest p n i n.length ↔ skipStars p i = p.length := by
  unfold Rest skipStars
  have hlen : (p.drop i).length = p.length - i := List.length_drop
  rw [List.drop_length, matches_empty_iff, ← List.map_drop]
  constructor
  · intro h
    have hall : ∀ c ∈ p.drop i, decide (c = '*') = true := by
      intro c hc
      exact decide_eq_true (token_eq_many.mp (h _ (List.mem_map_of_mem hc)))
    rw [List.takeWhile_eq_self_iff.mpr hall]
    omega
  · intro h t ht
    obtain ⟨c, hc, rfl⟩ := List.mem_map.mp ht
    have hall := (List.takeWhile_prefix (decide <| · = '*')).eq_of_length
      (show ((p.drop i).takeWhile (· = '*')).length = _ by omega)
    exact token_eq_many.mpr (of_decide_eq_true (List.takeWhile_eq_self_iff.mp hall c hc))

/-- A segment without stars takes its own length. -/
theorem rest_segment (hs : s ≤ i) (hi : i ≤ p.length)
    (hfree : ∀ m, s ≤ m → m < i → p[m]? ≠ some '*') (h : Rest p n s j) :
    i - s ≤ n.length - j ∧ Rest p n i (j + (i - s)) := by
  have hsplit : (p.map token).drop s =
      ((p.map token).drop s).take (i - s) ++ (p.map token).drop i := by
    conv_lhs => rw [← List.take_append_drop (i - s) ((p.map token).drop s)]
    rw [List.drop_drop, Nat.add_sub_cancel' hs]
  have hlen : (((p.map token).drop s).take (i - s)).length = i - s := by
    simp
    omega
  unfold Rest at h ⊢
  rw [hsplit] at h
  have hnot : Token.many ∉ ((p.map token).drop s).take (i - s) := by
    intro hmem
    obtain ⟨m, hm, hget⟩ := List.mem_iff_getElem.mp hmem
    rw [List.getElem_take, List.getElem_drop, List.getElem_map, token_eq_many] at hget
    rw [hlen] at hm
    apply hfree (s + m) (Nat.le_add_right s m) (by omega)
    rw [← hget]
    exact List.getElem?_eq_getElem _
  obtain ⟨hle, hrest⟩ := matches_append hnot h
  rw [hlen, List.length_drop] at hle
  rw [hlen, List.drop_drop] at hrest
  exact ⟨hle, hrest⟩

end Rest

namespace Scan

/-- What the loop keeps: the whole name matches the whole pattern just when what is ahead does,
or, behind a star, when the rest of the pattern matches from the mark or from a later place. -/
structure Inv (p n : List Char) (c : Scan) : Prop where
  i_le : c.i ≤ p.length
  j_le : c.j ≤ n.length
  ahead : c.star = none → (Rest p n 0 0 ↔ Rest p n c.i c.j)
  star_lt : ∀ s, c.star = some s → s < c.i
  aligned : ∀ s, c.star = some s → c.i - (s + 1) = c.j - c.mark
  free : ∀ s, c.star = some s → ∀ m, s + 1 ≤ m → m < c.i → p[m]? ≠ some '*'
  marked : ∀ s, c.star = some s → (Rest p n (s + 1) c.mark ↔ Rest p n c.i c.j)
  later : ∀ s, c.star = some s →
    (Rest p n 0 0 ↔ ∃ k, c.mark ≤ k ∧ k ≤ n.length ∧ Rest p n (s + 1) k)

variable {p n : List Char} {c c' : Scan}

theorem inv_first : Inv p n first where
  i_le := Nat.zero_le _
  j_le := Nat.zero_le _
  ahead _ := Iff.rfl
  star_lt _ h := by cases h
  aligned _ h := by cases h
  free _ h := by cases h
  marked _ h := by cases h
  later _ h := by cases h

/-- Where the segment behind the last star fits up to a place, the star may end there already. -/
theorem Inv.whole (h : c.Inv p n) (hrest : Rest p n c.i c.j) : Rest p n 0 0 := by
  cases hs : c.star with
  | none => exact (h.ahead hs).mpr hrest
  | some s =>
    apply (h.later s hs).mpr
    exact ⟨c.mark, Nat.le_refl _, c.mark_le.trans h.j_le, (h.marked s hs).mpr hrest⟩

/-- From the place of the walk on, at least as much of the name is ahead of the pattern's rest. -/
theorem Inv.reached (h : c.Inv p n) (hwhole : Rest p n 0 0) :
    ∃ k, c.j ≤ k ∧ k ≤ n.length ∧ Rest p n c.i k := by
  cases hs : c.star with
  | none => exact ⟨c.j, Nat.le_refl _, h.j_le, (h.ahead hs).mp hwhole⟩
  | some s =>
    obtain ⟨k, hmark, hk, hrest⟩ := (h.later s hs).mp hwhole
    obtain ⟨hle, hrest'⟩ := rest_segment (h.star_lt s hs) h.i_le (h.free s hs) hrest
    have hal := h.aligned s hs
    have hm := c.mark_le
    exact ⟨_, by omega, by omega, hrest'⟩

/-- A step in both texts. -/
theorem Inv.eat (h : c.Inv p n) (hi : c.i < p.length) (hj : c.j < n.length)
    (hstar : p[c.i] ≠ '*') (heq : p[c.i] = '?' ∨ p[c.i] = n[c.j]) :
    Inv p n { c with i := c.i + 1, j := c.j + 1, mark_le := Nat.le_succ_of_le c.mark_le } where
  i_le := hi
  j_le := hj
  ahead hs := (h.ahead hs).trans (rest_eat hi hj hstar heq)
  star_lt s hs := Nat.lt_succ_of_lt (h.star_lt s hs)
  aligned s hs := by
    have hal := h.aligned s hs
    have hlt := h.star_lt s hs
    have hm := c.mark_le
    simp only
    omega
  free s hs m hsm hm := by
    rcases Nat.lt_succ_iff_lt_or_eq.mp hm with hlt | rfl
    · exact h.free s hs m hsm hlt
    · rw [List.getElem?_eq_getElem hi]
      simpa using hstar
  marked s hs := (h.marked s hs).trans (rest_eat hi hj hstar heq)
  later s hs := h.later s hs

/-- A star takes the place of the one before it. -/
theorem Inv.meet (h : c.Inv p n) (hi : c.i < p.length) (hstar : p[c.i] = '*') :
    Inv p n { i := c.i + 1, j := c.j, star := some c.i, mark := c.j,
              mark_le := Nat.le_refl c.j } where
  i_le := hi
  j_le := h.j_le
  ahead hs := by cases hs
  star_lt s hs := by
    cases hs
    exact Nat.lt_succ_self _
  aligned s hs := by
    cases hs
    simp
  free s hs m hsm hm := by
    cases hs
    simp only at hm
    omega
  marked s hs := by
    cases hs
    exact Iff.rfl
  later s hs := by
    cases hs
    constructor
    · intro hwhole
      obtain ⟨k, hjk, hk, hrest⟩ := h.reached hwhole
      obtain ⟨k', hkk', hk', hrest'⟩ := (rest_star hi hk hstar).mp hrest
      exact ⟨k', hjk.trans hkk', hk', hrest'⟩
    · intro hrest
      exact h.whole ((rest_star hi h.j_le hstar).mpr hrest)

/-- A walk that is stuck behind a star goes on behind the mark. -/
theorem Inv.back (h : c.Inv p n) (hj : c.j < n.length) {s : Nat} (hs : c.star = some s)
    (hstuck : ¬ Rest p n c.i c.j) :
    Inv p n { i := s + 1, j := c.mark + 1, star := some s, mark := c.mark + 1,
              mark_le := Nat.le_refl _ } where
  i_le := (h.star_lt s hs).trans_le h.i_le
  j_le := Nat.lt_of_le_of_lt c.mark_le hj
  ahead hs' := by cases hs'
  star_lt s' hs' := by
    cases hs'
    exact Nat.lt_succ_self _
  aligned s' hs' := by
    cases hs'
    simp
  free s' hs' m hsm hm := by
    cases hs'
    simp only at hm
    omega
  marked s' hs' := by
    cases hs'
    exact Iff.rfl
  later s' hs' := by
    cases hs'
    apply (h.later s hs).trans
    constructor
    · rintro ⟨k, hmk, hk, hrest⟩
      refine ⟨k, ?_, hk, hrest⟩
      -- the mark itself leads to where the walk is stuck
      apply Nat.lt_of_le_of_ne hmk
      rintro rfl
      exact hstuck ((h.marked s hs).mp hrest)
    · rintro ⟨k, hmk, hk, hrest⟩
      exact ⟨k, Nat.le_of_succ_le hmk, hk, hrest⟩

/-- What one round does to the question whether the name matches. -/
theorem Inv.round (hn : '*' ∉ n) (h : c.Inv p n) (hj : c.j < n.length) :
    match c.round p n with
    | some c' => c'.Inv p n
    | none => ¬ Rest p n 0 0 := by
  by_cases heat : c.i < p.length ∧ (p[c.i]? = some '?' ∨ p[c.i]? = n[c.j]?)
  · rw [Scan.round, if_pos heat]
    obtain ⟨hi, heq⟩ := heat
    rw [List.getElem?_eq_getElem hi, List.getElem?_eq_getElem hj, Option.some_inj,
      Option.some_inj] at heq
    refine h.eat hi hj ?_ heq
    intro hstar
    rcases heq with hquestion | heq
    · rw [hstar] at hquestion
      exact absurd hquestion (by decide)
    · apply hn
      rw [← hstar, heq]
      exact List.getElem_mem hj
  by_cases hstar : c.i < p.length ∧ p[c.i]? = some '*'
  · rw [Scan.round, if_neg heat, if_pos hstar]
    obtain ⟨hi, hstar⟩ := hstar
    rw [List.getElem?_eq_getElem hi, Option.some_inj] at hstar
    exact h.meet hi hstar
  have hstuck : ¬ Rest p n c.i c.j := by
    apply not_rest hj
    · intro hget
      exact hstar ⟨(List.getElem?_eq_some_iff.mp hget).1, hget⟩
    · intro hget
      exact heat ⟨(List.getElem?_eq_some_iff.mp hget).1, .inl hget⟩
    · intro hget
      have hi := List.getElem?_eq_some_iff.mp (hget.trans (List.getElem?_eq_getElem hj))
      exact heat ⟨hi.1, .inr hget⟩
  rw [Scan.round, if_neg heat, if_neg hstar]
  cases hs : c.star with
  | none =>
    intro hwhole
    exact hstuck ((h.ahead hs).mp hwhole)
  | some s => exact h.back hj hs hstuck

/-- The loop answers whether the name matches. -/
theorem run_iff (hn : '*' ∉ n) (h : c.Inv p n) : c.run p n = true ↔ Rest p n 0 0 := by
  induction c using (next_wf p n).induction with
  | _ c ih =>
    rw [run]
    split
    · next hj =>
      have hround := h.round hn hj
      split
      · next c' hc' =>
        rw [hc'] at hround
        exact ih c' ⟨hj, hc'⟩ hround
      · next hc' =>
        rw [hc'] at hround
        simpa using hround
    · next hj =>
      have hend : c.j = n.length := Nat.le_antisymm h.j_le (Nat.not_lt.mp hj)
      rw [beq_iff_eq, ← rest_end (n := n) h.i_le]
      constructor
      · intro hrest
        apply h.whole
        rwa [hend]
      · intro hwhole
        obtain ⟨k, hjk, hk, hrest⟩ := h.reached hwhole
        rwa [show k = n.length by omega] at hrest

end Scan

/-- Lower-casing makes no `*` out of other characters. -/
def Platform.MakesNoStar (P : Platform) : Prop :=
  ∀ s : String, '*' ∉ s.toList → '*' ∉ (P.toLowercase s).toList

/-- The matcher of a collection ends and accepts just the names its pattern stands for. -/
theorem matchesPattern_iff (P : Platform) (hP : Platform.MakesNoStar P) (pattern name : String)
    (hname : '*' ∉ name.toList) :
    WellFounded (Scan.Next (P.toLowercase pattern).toList (P.toLowercase name).toList) ∧
      (matchesPattern P pattern name = true ↔
        Matches ((P.toLowercase pattern).toList.map token) (P.toLowercase name).toList) :=
  ⟨Scan.next_wf _ _, Scan.run_iff (hP name hname) Scan.inv_first⟩

theorem posix_makesNoStar : Platform.MakesNoStar .posix := by
  intro s hs hstar
  simp only [Platform.posix, String.toList_ofList, List.mem_map] at hstar
  obtain ⟨c, hc, heq⟩ := hstar
  rw [Core.eq_of_toLower (by decide) heq] at hc
  exact hs hc

/-- Stars on both sides of a segment whose beginning the name has twice. -/
theorem matchesPattern_iff_sample :
    Platform.MakesNoStar .posix ∧ '*' ∉ "ABABC.LOG".toList ∧
      matchesPattern .posix "*abc*l?g" "ABABC.LOG" = true := by
  refine ⟨posix_makesNoStar, by decide, ?_⟩
  apply (matchesPattern_iff .posix posix_makesNoStar "*abc*l?g" "ABABC.LOG" (by decide)).2.mpr
  decide

end MDesk.LogAnalysis
