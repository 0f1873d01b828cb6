import Mathlib.Algebra.Order.Floor.Semiring
import Mathlib.Algebra.Order.Round
import Mathlib.Data.Rat.Floor
import MDesk.Core.Shares
import MDesk.Core.Table

/-!
# Quality of service of the video

The controllers of a host answer its delay tests. The answers move the frame rate of each controller
through bands of the average delay, and the host captures at the smallest of these rates. Ratios and
frame times are rational numbers, and a time is a number of milliseconds.
-/

namespace MDesk.VideoQos

open MDesk.Core

def FPS : Nat := 30
def minFps : Nat := 1
def maxFps : Nat := 120
def initFps : Nat := 15

def brMin : ℚ := 1 / 5
def brMinHighResolution : ℚ := 1 / 10
def maxBrMultiple : ℚ := 1
def brBest : ℚ := 3 / 2
def brBalanced : ℚ := 67 / 100
def brSpeed : ℚ := 1 / 2

def historyDelayLen : Nat := 2
def delayThreshold150ms : Nat := 150

inductive Quality where
  | best
  | balanced
  | low
  | custom (v : ℚ)
  deriving DecidableEq

def Quality.ratio : Quality → ℚ
  | .best => brBest
  | .balanced => brBalanced
  | .low => brSpeed
  | .custom v => v

/-! ## Delays -/

structure RttCalculator where
  minRtt : Option Nat := none
  windowMinRtt : Option Nat := none
  smoothedRtt : Option Nat := none
  samples : List Nat := []
  deriving DecidableEq

namespace RttCalculator

def windowSamples : Nat := 60
def minSamples : Nat := 10
def alpha : ℚ := 1 / 2

def update (c : RttCalculator) (delay : Nat) : RttCalculator :=
  let minRtt := match c.minRtt with
    | some minRtt => if delay < minRtt then delay else minRtt
    | none => delay
  let samples := (if windowSamples ≤ c.samples.length then c.samples.tail else c.samples) ++ [delay]
  let windowMinRtt := samples.min?
  let smoothedRtt :=
    if windowSamples ≤ samples.length then
      match windowMinRtt with
      | some windowMin => some ⌊(1 - alpha) * minRtt + alpha * windowMin⌋₊
      | none => c.smoothedRtt
    else c.smoothedRtt
  { minRtt := some minRtt, windowMinRtt, smoothedRtt, samples }

def getRtt (c : RttCalculator) : Option Nat :=
  match c.smoothedRtt with
  | some rtt => some rtt
  | none => if minSamples ≤ c.samples.length then c.minRtt else none

end RttCalculator

structure UserDelay where
  responseDelayed : Bool := false
  delayHistory : List Nat := []
  fps : Option Nat := none
  rttCalculator : RttCalculator := {}
  quickIncreaseFpsCount : Nat := 0
  increaseFpsCount : Nat := 0
  deriving DecidableEq

namespace UserDelay

def addDelay (u : UserDelay) (delay : Nat) : UserDelay :=
  { u with
    rttCalculator := u.rttCalculator.update delay
    delayHistory :=
      (if historyDelayLen < u.delayHistory.length then u.delayHistory.tail else u.delayHistory) ++
        [delay] }

/-- The mean of the history, with the sum of `u32`. -/
def meanDelay (u : UserDelay) : Nat := u.delayHistory.sum % 2 ^ 32 / u.delayHistory.length

def avgDelay (u : UserDelay) : Nat :=
  if 0 < u.delayHistory.length then
    match u.rttCalculator.getRtt with
    | some rtt => if rtt < u.meanDelay then u.meanDelay - rtt else u.meanDelay
    | none => u.meanDelay
  else delayThreshold150ms

end UserDelay

/-! ## Bands of the delay -/

/-- What the rate of a controller is computed from: the present rate, the rates of the quality, the
largest rate, and the average delay before the new sample. -/
structure FpsBase where
  fps : Nat
  minFps : Nat
  normalFps : Nat
  highestFps : Nat
  oldAvgDelay : Nat
  deriving DecidableEq

namespace FpsBase

def devideFps (b : FpsBase) (avgDelay : Nat) : Nat :=
  ⌈(b.fps : ℚ) / ((avgDelay : ℚ) / (delayThreshold150ms : ℚ))⌉₊

def dividendMs (b : FpsBase) : Nat := delayThreshold150ms * b.minFps

/-- The rate behind the bands of the delay. -/
def bandFps (b : FpsBase) (quickIncreaseFpsCount avgDelay : Nat) : Nat :=
  let slow := if b.fps < b.normalFps then 1 else 0
  if avgDelay < 50 then
    max b.minFps (b.fps + if 3 ≤ quickIncreaseFpsCount + 1 then 5 else slow)
  else if avgDelay < 100 then
    max b.minFps (b.fps + if avgDelay < b.oldAvgDelay then slow else 0)
  else if avgDelay < delayThreshold150ms then max b.minFps b.fps
  else if avgDelay < 200 then max b.minFps (b.devideFps avgDelay)
  else if avgDelay < 300 then min b.minFps (b.devideFps avgDelay)
  else if avgDelay < 600 then b.dividendMs / avgDelay
  else min (b.dividendMs / avgDelay) (b.devideFps avgDelay)

end FpsBase

namespace UserDelay

/-- The counters and the rate of a controller with a new average delay. -/
def adjust (u : UserDelay) (b : FpsBase) (avgDelay : Nat) : UserDelay :=
  let fps := b.bandFps u.quickIncreaseFpsCount avgDelay
  let quick :=
    if avgDelay < 50 then
      if 3 ≤ u.quickIncreaseFpsCount + 1 then 0 else u.quickIncreaseFpsCount + 1
    else u.quickIncreaseFpsCount
  let increase := if avgDelay < delayThreshold150ms then u.increaseFpsCount + 1 else 0
  { u with
    fps := some (clamp (if 3 ≤ increase then fps + 1 else fps) minFps b.highestFps)
    quickIncreaseFpsCount := if 50 < avgDelay then 0 else quick
    increaseFpsCount := if 3 ≤ increase then 0 else increase }

end UserDelay

/-! ## Controllers -/

/-- A frame rate that a controller may ask for. -/
structure FpsLimit where
  val : Nat
  bounds : minFps ≤ val ∧ val ≤ maxFps
  deriving DecidableEq

structure UserData where
  autoAdjustFps : Option FpsLimit := none
  customFps : Option FpsLimit := none
  quality : Option (Int × Quality) := none
  delay : UserDelay := {}
  record : Bool := false
  deriving DecidableEq

/-- The rate of a controller that is not to be exceeded. -/
def UserData.userFps (u : UserData) : Nat :=
  let fps := (u.customFps.map FpsLimit.val).getD FPS
  match u.autoAdjustFps with
  | some autoAdjustFps => if fps = 0 ∨ autoAdjustFps.val < fps then autoAdjustFps.val else fps
  | none => fps

structure DisplayData where
  sendCounter : Nat := 0
  supportChangingQuality : Bool := false
  deriving DecidableEq

structure VideoQoS where
  fps : Nat := FPS
  ratio : ℚ := brBalanced
  users : Table Int UserData := ∅
  displays : Table String DisplayData := ∅
  bitrateStore : Nat := 0
  adjustRatioInstant : Nat
  abrConfig : Bool := true
  newUserInstant : Nat

namespace VideoQoS

variable (s : VideoQoS)

/-- `VideoQoS::default`, with the time it is called at. -/
def init (now : Nat) : VideoQoS := { adjustRatioInstant := now, newUserInstant := now }

def allUsers : List UserData := s.users.entries.map Sigma.snd

def allDisplays : List DisplayData := s.displays.entries.map Sigma.snd

def highestFps : Nat :=
  clamp (((s.allUsers.map UserData.userFps).filter (minFps ≤ ·)).min?.getD FPS) minFps maxFps

/-- The quality that was set last, `max_by` over the times. -/
def latestQuality : Quality :=
  let latest := (s.allUsers.filterMap UserData.quality).foldl (fun best q =>
    match best with
    | some b => if b.1 ≤ q.1 then some q else some b
    | none => some q) none
  (latest.getD (0, .balanced)).2

def inVbrState : Bool := s.abrConfig && s.allDisplays.all DisplayData.supportChangingQuality

/-- What the ratio becomes at a largest delay. -/
def nextRatio (dynamicScreen : Bool) (maxDelay : Nat) : ℚ :=
  let v := s.ratio * if maxDelay < 50 then (if dynamicScreen then 115 / 100 else 1)
    else if maxDelay < 100 then (if dynamicScreen then 11 / 10 else 1)
    else if maxDelay < delayThreshold150ms then (if dynamicScreen then 105 / 100 else 1)
    else if maxDelay < 200 then 95 / 100
    else if maxDelay < 300 then 9 / 10
    else if maxDelay < 500 then 85 / 100
    else 8 / 10
  let ratioAdd150kbps := ((s.bitrateStore + 150 : Nat) : ℚ) * s.ratio / s.bitrateStore
  if 0 < s.bitrateStore ∧ ratioAdd150kbps < v ∧ s.ratio < ratioAdd150kbps ∧ brSpeed ≤ s.ratio then
    ratioAdd150kbps
  else v

/-- The smallest ratio of a quality. -/
def minRatio (targetQuality : Quality) : ℚ :=
  let ratio1mbps := max (s.ratio * 1000 / s.bitrateStore) brMinHighResolution
  let within (minimum : ℚ) := if 0 < s.bitrateStore then min minimum ratio1mbps else minimum
  match targetQuality with
  | .best => max (within (brBest / (25 / 10))) brMin
  | .balanced => max (within (min (brBalanced / 2) (4 / 10))) brMinHighResolution
  | .low => brMinHighResolution
  | .custom _ => brMinHighResolution

def adjustRatio (now : Nat) (dynamicScreen : Bool) : VideoQoS :=
  if s.inVbrState then
    match (s.allUsers.map fun u => u.delay.avgDelay).max? with
    | none => s
    | some maxDelay =>
      { s with
        ratio := clamp (s.nextRatio dynamicScreen maxDelay) (s.minRatio s.latestQuality)
          (s.latestQuality.ratio * maxBrMultiple)
        adjustRatioInstant := now }
  else s

def adjustFps (now : Nat) : VideoQoS :=
  let fps := (s.allUsers.map fun u => u.delay.fps.getD initFps).min?.getD initFps
  let fps := if s.allUsers.any fun u => u.delay.responseDelayed then min fps (minFps + 1) else fps
  let fps := if now - s.newUserInstant < 1000 then min fps initFps else fps
  { s with fps := clamp fps minFps s.highestFps }

/-- The rates of the quality, `(min_fps, normal_fps)`. -/
def qualityFps (targetRatio : ℚ) : Nat × Nat :=
  if brBest ≤ targetRatio then (8, 16)
  else if brBalanced ≤ targetRatio then (10, 20)
  else (12, 24)

/-- What `user_network_delay` reads of the state before it changes anything. -/
def fpsBase (u : UserData) : FpsBase where
  fps := s.fps
  minFps := (qualityFps s.latestQuality.ratio).1
  normalFps := (qualityFps s.latestQuality.ratio).2
  highestFps := s.highestFps
  oldAvgDelay := u.delay.avgDelay

/-- The average delay with a new sample. -/
def avgDelayWith (u : UserData) (delay : Nat) : Nat :=
  max (u.delay.addDelay (max delay 10)).avgDelay 10

/-- The delay data of a controller behind an answer. -/
def delayData (u : UserData) (delay : Nat) : UserDelay :=
  (u.delay.addDelay (max delay 10)).adjust (s.fpsBase u) (avgDelayWith u delay)

def userNetworkDelay (linux : Bool) (now : Nat) (id : Int) (delay : Nat) : VideoQoS :=
  match s.users.get id with
  | none => s.adjustFps now
  | some u =>
    let s' := { s with users := s.users.insert id { u with delay := s.delayData u delay } }
    let s' := s'.adjustFps now
    if u.delay.fps.isNone ∧ ¬ linux then s'.adjustRatio now false else s'

def userDelayResponseElapsed (now : Nat) (id : Int) (elapsed : Nat) : VideoQoS :=
  match s.users.get id with
  | none => s
  | some u =>
    let delay := { u.delay with responseDelayed := decide (2000 < elapsed) }
    if 2000 < elapsed then
      let delay := delay.addDelay (elapsed % 2 ^ 32)
      { s with users := s.users.insert id { u with delay } }.adjustFps now
    else { s with users := s.users.insert id { u with delay } }

def onConnectionOpen (now : Nat) (id : Int) (enableAbr : Bool) : VideoQoS :=
  { s with users := s.users.insert id {}, abrConfig := enableAbr, newUserInstant := now }

def onConnectionClose (now : Nat) (id : Int) : VideoQoS :=
  let s := { s with users := s.users.remove id }
  if s.users.len = 0 then init now else s

def userCustomFps (id : Int) (fps : Nat) : VideoQoS :=
  if h : minFps ≤ fps ∧ fps ≤ maxFps then
    { s with users := s.users.modify id fun u => { u with customFps := some ⟨fps, h⟩ } }
  else s

def userAutoAdjustFps (id : Int) (fps : Nat) : VideoQoS :=
  if h : minFps ≤ fps ∧ fps ≤ maxFps then
    { s with users := s.users.modify id fun u => { u with autoAdjustFps := some ⟨fps, h⟩ } }
  else s

end VideoQoS

end MDesk.VideoQos
