import Mathlib.Algebra.Order.BigOperators.Group.List
import Mathlib.Algebra.Order.Floor.Semifield
import Mathlib.Data.List.Induction
import MDesk.Video.FrameRate

/-!
# The delay without the round trip

The round trip of a link is estimated from the samples of its delay, and what a sample takes longer
is congestion. Where the mean of the last samples is the estimate itself, the delay is not zero but
all of the mean, so a link that is slow but healthy counts as congested.
-/

namespace MDesk.VideoQos

open Core

variable {ds ds' : List Nat} {d n r : Nat}

/-- The last members of a list. -/
def lastSamples (n : Nat) (ds : List Nat) : List Nat := ds.drop (ds.length - n)

theorem lastSamples_length (n : Nat) (ds : List Nat) :
    (lastSamples n ds).length = min n ds.length := by
  rw [lastSamples, List.length_drop]
  omega

/-- A window of the last members moves on by one. -/
theorem lastSamples_concat (hn : 0 < n) (ds : List Nat) (d : Nat) :
    lastSamples n (ds ++ [d]) =
      (if n ≤ (lastSamples n ds).length then (lastSamples n ds).tail else lastSamples n ds) ++
        [d] := by
  rw [lastSamples_length]
  unfold lastSamples
  split_ifs with hfull
  · have hlen : (ds ++ [d]).length - n = ds.length - n + 1 := by
      rw [List.length_append, List.length_singleton]
      omega
    rw [hlen, List.drop_append_of_le_length (by omega), List.tail_drop]
  · have hshort : (ds ++ [d]).length - n = 0 := by
      rw [List.length_append, List.length_singleton]
      omega
    have hshort' : ds.length - n = 0 := by omega
    rw [hshort, hshort', List.drop_zero, List.drop_zero]

theorem lastSamples_replicate (n k c : Nat) :
    lastSamples n (List.replicate k c) = List.replicate (min n k) c := by
  rw [lastSamples, List.drop_replicate, List.length_replicate]
  congr 1
  omega

theorem min?_concat (ds : List Nat) (d : Nat) :
    (ds ++ [d]).min? = some (match ds.min? with | some m => min m d | none => d) := by
  cases ds with
  | nil => rfl
  | cons x xs =>
    rw [List.cons_append, List.min?_cons', List.foldl_append]
    rfl

/-! ## Samples -/

/-- The delay data of a controller behind the samples of its delay. -/
def sampled (ds : List Nat) : UserDelay := ds.foldl UserDelay.addDelay {}

theorem sampled_concat (ds : List Nat) (d : Nat) :
    sampled (ds ++ [d]) = (sampled ds).addDelay d := by
  rw [sampled, List.foldl_append]
  rfl

/-- The mean of the last samples. -/
def mean (ds : List Nat) : Nat := (lastSamples 3 ds).sum / (lastSamples 3 ds).length

/-- The mean of the last samples with their sum in 32 bits. -/
def wrappedMean (ds : List Nat) : Nat :=
  (lastSamples 3 ds).sum % 2 ^ 32 / (lastSamples 3 ds).length

/-- The estimate of the round trip that belongs to the samples so far. -/
def estimate (ds : List Nat) : Option Nat :=
  if 60 ≤ ds.length then
    some ((ds.min?.getD 0 + (lastSamples 60 ds).min?.getD 0) / 2)
  else if 10 ≤ ds.length then ds.min? else none

theorem sampled_history (ds : List Nat) : (sampled ds).delayHistory = lastSamples 3 ds := by
  induction ds using List.reverseRecOn with
  | nil => rfl
  | append_singleton ds d ih =>
    rw [sampled_concat, lastSamples_concat (by decide), ← ih]
    rfl

/-- The smoothed estimate is the middle of the two minima. -/
theorem smoothed_eq (a b : Nat) :
    ⌊(1 - RttCalculator.alpha) * (a : ℚ) + RttCalculator.alpha * (b : ℚ)⌋₊ = (a + b) / 2 := by
  have hmiddle : (1 - RttCalculator.alpha) * (a : ℚ) + RttCalculator.alpha * (b : ℚ) =
      ((a + b : Nat) : ℚ) / (2 : Nat) := by
    rw [RttCalculator.alpha]
    push_cast
    ring
  rw [hmiddle, Nat.floor_div_eq_div]

theorem sampled_samples (ds : List Nat) :
    (sampled ds).rttCalculator.samples = lastSamples 60 ds := by
  induction ds using List.reverseRecOn with
  | nil => rfl
  | append_singleton ds d ih =>
    rw [sampled_concat, lastSamples_concat (by decide), ← ih]
    rfl

theorem sampled_minRtt (ds : List Nat) : (sampled ds).rttCalculator.minRtt = ds.min? := by
  induction ds using List.reverseRecOn with
  | nil => rfl
  | append_singleton ds d ih =>
    rw [sampled_concat, min?_concat, ← ih, UserDelay.addDelay, RttCalculator.update]
    cases (sampled ds).rttCalculator.minRtt with
    | none => rfl
    | some m =>
      simp only [Option.some_inj]
      split_ifs <;> omega

/-- A full window gives a new smoothed estimate. -/
theorem update_smoothedRtt (c : RttCalculator) (d : Nat) : (c.update d).smoothedRtt =
    if 60 ≤ (c.update d).samples.length then
      some (((c.update d).minRtt.getD 0 + (c.update d).samples.min?.getD 0) / 2)
    else c.smoothedRtt := by
  obtain ⟨recent, hrecent⟩ : ∃ recent, (c.update d).samples.min? = some recent :=
    ⟨_, min?_concat _ d⟩
  rw [hrecent, Option.getD_some, ← smoothed_eq]
  simp only [RttCalculator.update] at hrecent ⊢
  rw [hrecent]
  rfl

theorem sampled_smoothedRtt (ds : List Nat) : (sampled ds).rttCalculator.smoothedRtt =
    if 60 ≤ ds.length then estimate ds else none := by
  induction ds using List.reverseRecOn with
  | nil => rfl
  | append_singleton ds d ih =>
    have hsamples : ((sampled ds).rttCalculator.update d).samples = lastSamples 60 (ds ++ [d]) := by
      rw [← sampled_samples, sampled_concat]
      rfl
    have hminRtt : ((sampled ds).rttCalculator.update d).minRtt = (ds ++ [d]).min? := by
      rw [← sampled_minRtt, sampled_concat]
      rfl
    have hsmoothed := update_smoothedRtt (sampled ds).rttCalculator d
    rw [hsamples, hminRtt, lastSamples_length, ih] at hsmoothed
    rw [sampled_concat, UserDelay.addDelay, hsmoothed, List.length_append,
      List.length_singleton]
    by_cases hfull : 60 ≤ ds.length + 1
    · rw [if_pos (by omega), if_pos hfull, estimate, if_pos (by simpa using hfull)]
    · rw [if_neg (by omega), if_neg (by omega), if_neg hfull]

theorem sampled_getRtt (ds : List Nat) : (sampled ds).rttCalculator.getRtt = estimate ds := by
  rw [RttCalculator.getRtt, sampled_smoothedRtt, sampled_minRtt, sampled_samples,
    lastSamples_length, RttCalculator.minSamples]
  by_cases hfull : 60 ≤ ds.length
  · rw [if_pos hfull, estimate, if_pos hfull]
  · rw [if_neg hfull, estimate, if_neg hfull]
    dsimp only
    congr 1
    rw [Nat.min_eq_right (by omega)]

/-! ## The estimate and the mean -/

theorem mem_of_mem_lastSamples (hd : d ∈ lastSamples n ds) : d ∈ ds := List.mem_of_mem_drop hd

theorem mem_lastSamples_of_le {k : Nat} (h : n ≤ k) (hd : d ∈ lastSamples n ds) :
    d ∈ lastSamples k ds :=
  (List.drop_suffix_drop_left ds (by omega)).subset hd

/-- The estimate is at most each of the last samples. -/
theorem estimate_le (hr : estimate ds = some r) (hd : d ∈ lastSamples 3 ds) : r ≤ d := by
  have hleast : ds.min?.getD 0 ≤ d := List.min?_getD_le_of_mem (mem_of_mem_lastSamples hd)
  have hrecent : (lastSamples 60 ds).min?.getD 0 ≤ d :=
    List.min?_getD_le_of_mem (mem_lastSamples_of_le (by decide) hd)
  unfold estimate at hr
  split_ifs at hr
  · rw [Option.some_inj] at hr
    omega
  · rw [hr, Option.getD_some] at hleast
    exact hleast

/-- The last three samples behind an estimate. -/
theorem lastSamples_of_estimate (hr : estimate ds = some r) : ∃ d₁ d₂ d₃,
    lastSamples 3 ds = [d₁, d₂, d₃] ∧ r ≤ d₁ ∧ r ≤ d₂ ∧ r ≤ d₃ := by
  have hlength : (lastSamples 3 ds).length = 3 := by
    rw [lastSamples_length]
    unfold estimate at hr
    split_ifs at hr <;> omega
  obtain ⟨d₁, d₂, d₃, hlast⟩ := List.length_eq_three.mp hlength
  have hle (d : Nat) (hd : d ∈ [d₁, d₂, d₃]) : r ≤ d := estimate_le hr (hlast ▸ hd)
  exact ⟨d₁, d₂, d₃, hlast, hle d₁ (by simp), hle d₂ (by simp), hle d₃ (by simp)⟩

theorem estimate_le_mean (hr : estimate ds = some r) : r ≤ mean ds := by
  obtain ⟨d₁, d₂, d₃, hlast, hle₁, hle₂, hle₃⟩ := lastSamples_of_estimate hr
  rw [mean, hlast]
  simp only [List.sum_cons, List.sum_nil, List.length_cons, List.length_nil]
  omega

theorem meanDelay_sampled (ds : List Nat) : (sampled ds).meanDelay = wrappedMean ds := by
  rw [UserDelay.meanDelay, sampled_history, wrappedMean]

/-- The average delay behind an estimate. -/
theorem avgDelay_sampled (hr : estimate ds = some r) : (sampled ds).avgDelay =
    if r < wrappedMean ds then wrappedMean ds - r else wrappedMean ds := by
  obtain ⟨d₁, d₂, d₃, hlast, -⟩ := lastSamples_of_estimate hr
  rw [UserDelay.avgDelay, sampled_getRtt, hr, sampled_history, meanDelay_sampled, hlast]
  exact if_pos (Nat.succ_pos 2)

/-- The samples behind which the average delay is what they exceed the estimate by: their mean is
over the estimate, or all of them are almost zero. Where the sum of the samples does not fit, the
mean of what is left of it has to be what the estimate leaves of the mean. -/
def Excludes (ds : List Nat) (r : Nat) : Prop :=
  if (lastSamples 3 ds).sum < 2 ^ 32 then r < mean ds ∨ mean ds = 0
  else wrappedMean ds ≤ r ∧ wrappedMean ds + r = mean ds

theorem wrappedMean_eq (h : (lastSamples 3 ds).sum < 2 ^ 32) : wrappedMean ds = mean ds := by
  rw [wrappedMean, mean, Nat.mod_eq_of_lt h]

/-- A sum that does not fit loses more than one from the mean. -/
theorem wrappedMean_lt (h : ¬ (lastSamples 3 ds).sum < 2 ^ 32) : wrappedMean ds < mean ds := by
  have hpos : 0 < (lastSamples 3 ds).length := by
    rw [List.length_pos_iff]
    intro hnil
    rw [hnil] at h
    exact h (by decide)
  have hle := lastSamples_length 3 ds
  have hmod : (lastSamples 3 ds).sum % 2 ^ 32 + 2 ^ 32 ≤ (lastSamples 3 ds).sum := by omega
  have hcases : (lastSamples 3 ds).length = 1 ∨ (lastSamples 3 ds).length = 2 ∨
      (lastSamples 3 ds).length = 3 := by omega
  rw [wrappedMean, mean]
  obtain hlen | hlen | hlen := hcases
  all_goals
    rw [hlen]
    omega

theorem avgDelay_eq_iff (hr : estimate ds = some r) :
    (sampled ds).avgDelay = mean ds - r ↔ Excludes ds r := by
  have hmean := estimate_le_mean hr
  rw [avgDelay_sampled hr, Excludes]
  by_cases hfits : (lastSamples 3 ds).sum < 2 ^ 32
  · rw [if_pos hfits, wrappedMean_eq hfits]
    split_ifs <;> omega
  · have hlt := wrappedMean_lt hfits
    rw [if_neg hfits]
    split_ifs <;> omega

/-- The samples of two links with one estimate between which the average delay does not fall: a
mean that is the estimate itself either stays or gets at least twice as large. Where the sum of the
larger samples does not fit, the same is said of the means of what is left of the sums. -/
def Rises (ds ds' : List Nat) (r : Nat) : Prop :=
  if (lastSamples 3 ds').sum < 2 ^ 32 then mean ds = r → mean ds' = r ∨ 2 * r ≤ mean ds'
  else wrappedMean ds ≤ wrappedMean ds' ∧
      (wrappedMean ds ≤ r → r < wrappedMean ds' → wrappedMean ds + r ≤ wrappedMean ds') ∨
    r < wrappedMean ds ∧ wrappedMean ds' ≤ r ∧ wrappedMean ds ≤ wrappedMean ds' + r

theorem avgDelay_le_iff (hr : estimate ds = some r) (hr' : estimate ds' = some r)
    (h : List.Forall₂ (· ≤ ·) (lastSamples 3 ds) (lastSamples 3 ds')) :
    (sampled ds).avgDelay ≤ (sampled ds').avgDelay ↔ Rises ds ds' r := by
  rw [avgDelay_sampled hr, avgDelay_sampled hr', Rises]
  by_cases hfits : (lastSamples 3 ds').sum < 2 ^ 32
  · have hsum : (lastSamples 3 ds).sum ≤ (lastSamples 3 ds').sum := h.sum_le_sum
    have hle : mean ds ≤ mean ds' := by
      rw [mean, mean, h.length_eq]
      exact Nat.div_le_div_right hsum
    have hmean := estimate_le_mean hr
    rw [if_pos hfits, wrappedMean_eq hfits, wrappedMean_eq (Nat.lt_of_le_of_lt hsum hfits)]
    split_ifs <;> omega
  · rw [if_neg hfits]
    split_ifs <;> omega

/-! ## A constant link -/

/-- The average delays that do not lower the present rate, within the largest one. -/
def Keeps (b : FpsBase) (avgDelay : Nat) : Prop :=
  let fps := min b.fps b.highestFps
  avgDelay < 150 ∨ fps ≤ 1 ∨
    (if avgDelay < 200 then fps ≤ b.minFps ∨ (fps - 1) * avgDelay < 150 * b.fps
    else if avgDelay < 300 then fps ≤ b.minFps ∧ (fps - 1) * avgDelay < 150 * b.fps
    else if avgDelay < 600 then fps * avgDelay ≤ 150 * b.minFps
    else fps * avgDelay ≤ 150 * b.minFps ∧ (fps - 1) * avgDelay < 150 * b.fps)

theorem adjust_keeps_iff (u : UserDelay) (b : FpsBase) (a : Nat) {f : Nat}
    (hf : (u.adjust b a).fps = some f) : min b.fps b.highestFps ≤ f ↔ Keeps b a := by
  rw [adjust_fps, Option.some_inj] at hf
  subst hf
  by_cases hlow : a < 150
  · have hband := FpsBase.le_bandFps (b := b) (q := u.quickIncreaseFpsCount) hlow
    refine iff_of_true ?_ (.inl hlow)
    unfold clamp
    omega
  · have hdevide := FpsBase.devideFps_le_iff (b := b) (a := a)
      (k := min b.fps b.highestFps - 1) (by omega)
    have hdividend := Nat.le_div_iff_mul_le (x := min b.fps b.highestFps) (y := b.dividendMs)
      (k := a) (by omega)
    have hms : b.dividendMs = 150 * b.minFps := rfl
    rw [hms] at hdividend
    unfold Keeps clamp minFps FpsBase.bandFps delayThreshold150ms
    rw [hms]
    grind

theorem estimate_replicate (hn : 10 ≤ n) (c : Nat) : estimate (List.replicate n c) = some c := by
  have hmin : (List.replicate n c).min? = some c := List.min?_replicate_of_pos (by omega)
  rw [estimate, lastSamples_replicate, List.length_replicate, hmin]
  split_ifs with hfull
  · rw [List.min?_replicate_of_pos (by omega), Option.getD_some]
    congr 1
    omega
  · rfl

theorem wrappedMean_replicate (hn : 3 ≤ n) (c : Nat) :
    wrappedMean (List.replicate n c) = 3 * c % 2 ^ 32 / 3 := by
  rw [wrappedMean, lastSamples_replicate, Nat.min_eq_left hn, List.sum_replicate_nat,
    List.length_replicate]

/-- On a link whose delay is constant the average delay is the delay itself, as far as the sum of
the samples fits. -/
theorem avgDelay_constant (hn : 10 ≤ n) (c : Nat) :
    (sampled (List.replicate n c)).avgDelay = 3 * c % 2 ^ 32 / 3 := by
  rw [avgDelay_sampled (estimate_replicate hn c), wrappedMean_replicate (by omega)]
  split_ifs <;> omega

namespace VideoQoS

/-- The average delay depends on the samples only. -/
theorem avgDelay_addDelay_congr {u v : UserDelay} (hhistory : u.delayHistory = v.delayHistory)
    (hrtt : u.rttCalculator = v.rttCalculator) (d : Nat) :
    (u.addDelay d).avgDelay = (v.addDelay d).avgDelay := by
  have hhistory' : (u.addDelay d).delayHistory = (v.addDelay d).delayHistory := by
    simp only [UserDelay.addDelay, hhistory]
  have hrtt' : (u.addDelay d).rttCalculator = (v.addDelay d).rttCalculator := by
    simp only [UserDelay.addDelay, hrtt]
  unfold UserDelay.avgDelay UserDelay.meanDelay
  rw [hhistory', hrtt']

/-- On a constant link the rate of a controller is kept exactly where the delay itself keeps it. -/
theorem constant_keeps_iff {s : VideoQoS} {u : UserData} {id : Int} (linux : Bool)
    (now delay : Nat) (hu : s.users.get id = some u) (hn : 9 ≤ n)
    (hhistory : u.delay.delayHistory = (sampled (List.replicate n (max delay 10))).delayHistory)
    (hrtt : u.delay.rttCalculator = (sampled (List.replicate n (max delay 10))).rttCalculator) :
    ∃ f, (s.userNetworkDelay linux now id delay).storedFps id = some f ∧
      (min s.fps s.highestFps ≤ f ↔
        Keeps (s.fpsBase u) (max (3 * max delay 10 % 2 ^ 32 / 3) 10)) := by
  have hlink : List.replicate n (max delay 10) ++ [max delay 10] =
      List.replicate (n + 1) (max delay 10) := (List.replicate_succ').symm
  have havg : avgDelayWith u delay = max (3 * max delay 10 % 2 ^ 32 / 3) 10 := by
    rw [avgDelayWith, avgDelay_addDelay_congr hhistory hrtt, ← sampled_concat, hlink,
      avgDelay_constant (by omega)]
  refine ⟨_, (storedFps_userNetworkDelay hu linux now delay).trans (adjust_fps _ _ _), ?_⟩
  rw [← havg]
  exact adjust_keeps_iff _ (s.fpsBase u) _ (adjust_fps _ _ _)

end VideoQoS

end MDesk.VideoQos
