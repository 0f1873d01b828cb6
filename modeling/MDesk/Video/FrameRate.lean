import MDesk.Video.Qos

/-!
# The frame rate and the delay

The rate of a controller does not rise with its average delay but at one place: from 300 ms on it is
computed without the present rate, so a rate that was very low already becomes higher there. It
always stays between one and the smallest limit of the controllers.
-/

namespace MDesk.VideoQos

open MDesk.Core

variable {b : FpsBase} {q a a₁ a₂ k : Nat}

namespace FpsBase

theorem devideFps_le_iff (ha : 0 < a) : b.devideFps a ≤ k ↔ 150 * b.fps ≤ k * a := by
  have ha' : (0 : ℚ) < a / 150 := by positivity
  rw [devideFps, Nat.ceil_le, delayThreshold150ms, Nat.cast_ofNat, div_le_iff₀ ha',
    ← mul_div_assoc, le_div_iff₀ (by norm_num)]
  norm_cast
  rw [Nat.mul_comm b.fps]

theorem devideFps_anti (ha : 0 < a₁) (h : a₁ ≤ a₂) : b.devideFps a₂ ≤ b.devideFps a₁ := by
  rw [devideFps_le_iff (by omega)]
  have hself := (devideFps_le_iff (b := b) ha).mp (Nat.le_refl _)
  exact hself.trans (Nat.mul_le_mul_left _ h)

/-- From the threshold on the divided rate is at most the present one. -/
theorem devideFps_le_fps (ha : 150 ≤ a) : b.devideFps a ≤ b.fps := by
  rw [devideFps_le_iff (by omega), Nat.mul_comm]
  exact Nat.mul_le_mul_left _ ha

theorem dividendMs_div_le (ha : 300 ≤ a) : b.dividendMs / a ≤ b.minFps := by
  apply Nat.div_le_of_le_mul
  rw [dividendMs, delayThreshold150ms]
  exact Nat.mul_le_mul_right _ (by omega)

theorem dividendMs_anti (h : a₁ ≤ a₂) (ha : 0 < a₁) : b.dividendMs / a₂ ≤ b.dividendMs / a₁ :=
  Nat.div_le_div_left h ha

/-- Below the threshold no rate falls under the present one or that of the quality. -/
theorem le_bandFps (ha : a < 150) : max b.minFps b.fps ≤ b.bandFps q a := by
  unfold bandFps delayThreshold150ms
  dsimp only
  split_ifs <;> omega

/-- From the threshold on no rate rises over both. -/
theorem bandFps_le (ha : 150 ≤ a) : b.bandFps q a ≤ max b.minFps b.fps := by
  have hdevide := devideFps_le_fps (b := b) ha
  have hdividend := dividendMs_div_le (b := b) (a := a)
  unfold bandFps delayThreshold150ms
  grind

/-- From the second band on no rate is over that of the quality. -/
theorem bandFps_le_minFps (ha : 200 ≤ a) : b.bandFps q a ≤ b.minFps := by
  unfold bandFps delayThreshold150ms
  dsimp only
  split_ifs
  any_goals omega
  · exact dividendMs_div_le (by omega)
  · exact (Nat.min_le_left _ _).trans (dividendMs_div_le (by omega))

theorem minFps_le_bandFps (ha : a < 200) : b.minFps ≤ b.bandFps q a := by
  unfold bandFps delayThreshold150ms
  dsimp only
  split_ifs <;> omega

/-- The rate does not rise with the delay, unless the delay gets over 300 ms. -/
theorem bandFps_anti (ha : 0 < a₁) (h : a₁ ≤ a₂)
    (hjump : ¬ (200 ≤ a₁ ∧ a₁ < 300 ∧ 300 ≤ a₂ ∧ a₂ < 600)) :
    b.bandFps q a₂ ≤ b.bandFps q a₁ := by
  have hdevide := devideFps_anti (b := b) ha h
  have hdividend := dividendMs_anti (b := b) h ha
  by_cases hlow : a₁ < 150
  · by_cases hhigh : 150 ≤ a₂
    · exact (bandFps_le hhigh).trans (le_bandFps hlow)
    · unfold bandFps delayThreshold150ms
      grind
  · by_cases hmiddle : a₁ < 200
    · by_cases hhigh : 200 ≤ a₂
      · exact (bandFps_le_minFps hhigh).trans (minFps_le_bandFps hmiddle)
      · unfold bandFps delayThreshold150ms
        grind
    · have hquality := dividendMs_div_le (b := b) (a := a₂)
      unfold bandFps delayThreshold150ms
      grind

end FpsBase

/-- The average delays at which the rate of a controller rises with the delay: the slower answer is
between 300 and 600 ms, the faster one between 200 and 300 ms, and the present rate, slowed down by
the faster one, is below what the slower one gives. -/
def Jumps (b : FpsBase) (a₁ a₂ : Nat) : Prop :=
  200 ≤ a₁ ∧ a₁ < 300 ∧ 300 ≤ a₂ ∧ a₂ < 600 ∧ 2 ≤ min b.highestFps (150 * b.minFps / a₂) ∧
    150 * b.fps ≤ (min b.highestFps (150 * b.minFps / a₂) - 1) * a₁

instance (b : FpsBase) (a₁ a₂ : Nat) : Decidable (Jumps b a₁ a₂) := by
  unfold Jumps
  infer_instance

theorem adjust_fps (u : UserDelay) (b : FpsBase) (a : Nat) : (u.adjust b a).fps = some (clamp
    (b.bandFps u.quickIncreaseFpsCount a + if a < 150 ∧ 2 ≤ u.increaseFpsCount then 1 else 0)
    minFps b.highestFps) := by
  unfold UserDelay.adjust delayThreshold150ms
  grind

/-- The rate of a controller does not rise with its average delay, but where it jumps. -/
theorem adjust_anti_iff (u : UserDelay) (ha : 0 < a₁) (h : a₁ ≤ a₂) {f₁ f₂ : Nat}
    (h₁ : (u.adjust b a₁).fps = some f₁) (h₂ : (u.adjust b a₂).fps = some f₂) :
    f₂ ≤ f₁ ↔ ¬ Jumps b a₁ a₂ := by
  rw [adjust_fps, Option.some_inj] at h₁ h₂
  subst h₁ h₂
  by_cases hbands : 200 ≤ a₁ ∧ a₁ < 300 ∧ 300 ≤ a₂ ∧ a₂ < 600
  · obtain ⟨hlow, hlow', hhigh, hhigh'⟩ := hbands
    have hquality := FpsBase.dividendMs_div_le (b := b) hhigh
    have hdevide := FpsBase.devideFps_le_iff (b := b) (a := a₁)
      (k := min b.highestFps (150 * b.minFps / a₂) - 1) (by omega)
    have hdividend : b.dividendMs = 150 * b.minFps := rfl
    rw [hdividend] at hquality
    simp only [Jumps, ← hdevide]
    unfold clamp minFps FpsBase.bandFps delayThreshold150ms
    rw [hdividend]
    grind
  · have hanti := FpsBase.bandFps_anti (b := b) (q := u.quickIncreaseFpsCount) ha h hbands
    have hjump : ¬ Jumps b a₁ a₂ := fun hj => hbands ⟨hj.1, hj.2.1, hj.2.2.1, hj.2.2.2.1⟩
    refine iff_of_true ?_ hjump
    simp only [clamp]
    split_ifs <;> omega

namespace VideoQoS

variable {s : VideoQoS} {u : UserData} {id : Int}

/-- The rate that is stored for a controller. -/
def storedFps (s : VideoQoS) (id : Int) : Option Nat := (s.users.get id).bind fun u => u.delay.fps

@[simp] theorem adjustFps_users (now : Nat) : (s.adjustFps now).users = s.users := rfl

@[simp] theorem adjustRatio_users (now : Nat) (dynamicScreen : Bool) :
    (s.adjustRatio now dynamicScreen).users = s.users := by
  unfold adjustRatio
  split
  · split <;> rfl
  · rfl

/-- What an answer stores. -/
theorem storedFps_userNetworkDelay (hu : s.users.get id = some u) (linux : Bool)
    (now delay : Nat) :
    (s.userNetworkDelay linux now id delay).storedFps id = (s.delayData u delay).fps := by
  have hget : (s.users.insert id { u with delay := s.delayData u delay }).get id =
      some { u with delay := s.delayData u delay } := Table.get_insert_self
  simp only [userNetworkDelay, hu, storedFps]
  split_ifs
  · rw [adjustRatio_users, adjustFps_users, hget]
    rfl
  · rw [adjustFps_users, hget]
    rfl

theorem userFps_bounds (u : UserData) : minFps ≤ u.userFps ∧ u.userFps ≤ maxFps := by
  have hcustom : minFps ≤ (u.customFps.map FpsLimit.val).getD FPS ∧
      (u.customFps.map FpsLimit.val).getD FPS ≤ maxFps := by
    cases u.customFps with
    | none => decide
    | some limit => exact limit.bounds
  unfold UserData.userFps
  cases u.autoAdjustFps with
  | none => exact hcustom
  | some limit =>
    simp only
    split_ifs
    · exact limit.bounds
    · exact hcustom

theorem mem_allUsers (hu : s.users.get id = some u) : u ∈ s.allUsers :=
  List.mem_map.mpr ⟨_, Table.get_eq_some_iff.mp hu, rfl⟩

/-- The largest rate is the smallest limit of the controllers. -/
theorem highestFps_spec (hu : s.users.get id = some u) :
    (∀ v ∈ s.allUsers, s.highestFps ≤ v.userFps) ∧
      ∃ v ∈ s.allUsers, s.highestFps = v.userFps := by
  have hall : (s.allUsers.map UserData.userFps).filter (minFps ≤ ·) =
      s.allUsers.map UserData.userFps := by
    rw [List.filter_eq_self]
    intro n hn
    obtain ⟨v, -, rfl⟩ := List.mem_map.mp hn
    exact decide_eq_true (userFps_bounds v).1
  have hne : s.allUsers.map UserData.userFps ≠ [] :=
    List.ne_nil_of_mem (List.mem_map_of_mem (mem_allUsers hu))
  obtain ⟨n, hn⟩ := Option.isSome_iff_exists.mp (List.isSome_min?_of_ne_nil hne)
  obtain ⟨hmem, hleast⟩ := List.min?_eq_some_iff.mp hn
  obtain ⟨v, hv, rfl⟩ := List.mem_map.mp hmem
  have hbounds := userFps_bounds v
  have hhighest : s.highestFps = v.userFps := by
    rw [highestFps, hall, hn, Option.getD_some, clamp]
    omega
  rw [hhighest]
  exact ⟨fun w hw => hleast _ (List.mem_map_of_mem hw), v, hv, rfl⟩

/-- Two answers of a controller in the same state: the rate that the slower one stores is at most
that of the faster one exactly where the rate does not jump, and both rates are between one and the
smallest limit of the controllers. -/
theorem userNetworkDelay_anti_iff (s : VideoQoS) (u : UserData) (id : Int) (linux : Bool)
    (now delay₁ delay₂ : Nat) (hu : s.users.get id = some u)
    (h : avgDelayWith u delay₁ ≤ avgDelayWith u delay₂) :
    ∃ f₁ f₂, (s.userNetworkDelay linux now id delay₁).storedFps id = some f₁ ∧
      (s.userNetworkDelay linux now id delay₂).storedFps id = some f₂ ∧
      (f₂ ≤ f₁ ↔ ¬ Jumps (s.fpsBase u) (avgDelayWith u delay₁) (avgDelayWith u delay₂)) ∧
      ∀ v ∈ s.allUsers, (1 ≤ f₁ ∧ f₁ ≤ v.userFps) ∧ 1 ≤ f₂ ∧ f₂ ≤ v.userFps := by
  have hpositive : 0 < avgDelayWith u delay₁ := by
    unfold avgDelayWith
    omega
  have hstored (delay : Nat) : ∃ f, (s.delayData u delay).fps = some f ∧
      ∀ v ∈ s.allUsers, 1 ≤ f ∧ f ≤ v.userFps := by
    refine ⟨_, adjust_fps _ _ _, fun v hv => ?_⟩
    have hlimit : s.highestFps ≤ v.userFps := (highestFps_spec hu).1 v hv
    have hlow : 1 ≤ v.userFps := (userFps_bounds v).1
    have hhighest : (s.fpsBase u).highestFps = s.highestFps := rfl
    rw [hhighest]
    unfold clamp minFps
    omega
  obtain ⟨f₁, h₁, hbounds₁⟩ := hstored delay₁
  obtain ⟨f₂, h₂, hbounds₂⟩ := hstored delay₂
  refine ⟨f₁, f₂, ?_, ?_, ?_, fun v hv => ⟨hbounds₁ v hv, hbounds₂ v hv⟩⟩
  · rw [storedFps_userNetworkDelay hu, h₁]
  · rw [storedFps_userNetworkDelay hu, h₂]
  · -- both samples leave the counters as they were
    exact adjust_anti_iff (u.delay.addDelay (max delay₁ 10)) hpositive h h₁ h₂

/-- Two controllers of a host, the second of which has answered late. -/
def twoControllers : VideoQoS :=
  (((init 0).onConnectionOpen 0 1 true).onConnectionOpen 0 2 true).userNetworkDelay true 0 2 5000

/-- The first controller has the rate one with an answer in 250 ms and the rate five with one in
300 ms. -/
theorem twoControllers_jump :
    avgDelayWith {} 250 ≤ avgDelayWith {} 300 ∧ twoControllers.users.get 1 = some {} ∧
      (twoControllers.userNetworkDelay true 0 1 250).storedFps 1 = some 1 ∧
      (twoControllers.userNetworkDelay true 0 1 300).storedFps 1 = some 5 := by
  decide +kernel

/-- An answer in 20 ms and one in 400 ms. -/
theorem twoControllers_anti : ∃ f₁ f₂,
    (twoControllers.userNetworkDelay true 0 1 20).storedFps 1 = some f₁ ∧
      (twoControllers.userNetworkDelay true 0 1 400).storedFps 1 = some f₂ ∧
      (f₂ ≤ f₁ ↔ ¬ Jumps (twoControllers.fpsBase {}) (avgDelayWith {} 20) (avgDelayWith {} 400)) ∧
      ∀ v ∈ twoControllers.allUsers, (1 ≤ f₁ ∧ f₁ ≤ v.userFps) ∧ 1 ≤ f₂ ∧ f₂ ≤ v.userFps :=
  userNetworkDelay_anti_iff twoControllers {} 1 true 0 20 400 (by decide +kernel) (by decide)

end VideoQoS

end MDesk.VideoQos
