import MDesk.Core.Run
import MDesk.Core.Table

/-!
# The display service

The services of a host look at the displays and store what they see. A change is marked, and the
display service takes the marked list and announces it. While a guard is alive a change is stored
but not marked. A guard ends in two steps, of which only the last one takes the lock of the list.
-/

namespace MDesk

open Core

namespace DisplayService

variable {δ : Type*}

structure SyncDisplaysInfo (δ : Type*) where
  displays : List δ := []
  isSynced : Bool := false

namespace SyncDisplaysInfo

/-- A stored list is another one. -/
def differs [BEq δ] (stored displays : List δ) : Bool :=
  stored.length != displays.length ||
    (displays.zip stored).any fun (display, known) => display != known

/-- `ignored` is the flag of the guards. -/
def checkChanged [BEq δ] (s : SyncDisplaysInfo δ) (ignored : Bool) (displays : List δ) :
    SyncDisplaysInfo δ :=
  if differs s.displays displays then
    { displays, isSynced := if ignored then s.isSynced else false }
  else s

def getUpdateSyncDisplays (s : SyncDisplaysInfo δ) : Option (List δ) × SyncDisplaysInfo δ :=
  if s.isSynced then (none, s) else (some s.displays, { s with isSynced := true })

end SyncDisplaysInfo

/-- Where a guard is on its way. -/
inductive Guard where
  | held
  | cleared
deriving DecidableEq

/-- The displays, the flag of the guards, and the guards that have not ended. -/
structure DisplayState (δ : Type*) where
  sync : SyncDisplaysInfo δ := {}
  tempIgnoreDisplaysChanged : Bool := false
  guards : Table Nat Guard := ∅
  /-- The service has seen new subscribers. -/
  subscribed : Bool := false
  /-- The list that was last taken for the announcement. -/
  announced : Option (List δ) := none

/-- What may come next, in any order. -/
inductive DisplayEvent (δ : Type*) where
  | checkChanged (displays : List δ)
  | getUpdateSyncDisplays
  /-- The service looks for new subscribers, and asks for an announcement to them. -/
  | snapshot (hasSubscribes : Bool)
  | newSubscriber
  /-- `temp_ignore_displays_changed` makes a guard. -/
  | tempIgnore (guard : Nat)
  /-- The end of a guard clears the flag, and then asks for an announcement. -/
  | clearIgnore (guard : Nat)
  | dropGuard (guard : Nat)

namespace DisplayState

variable (s : DisplayState δ)

def checkChanged [BEq δ] (s : DisplayState δ) (displays : List δ) : DisplayState δ :=
  { s with sync := s.sync.checkChanged s.tempIgnoreDisplaysChanged displays }

def getUpdateSyncDisplays : DisplayState δ :=
  match s.sync.getUpdateSyncDisplays with
  | (some displays, sync) => { s with sync, announced := some displays }
  | (none, sync) => { s with sync }

/-- Whatever the list is, it is to be announced. -/
def unsync : DisplayState δ := { s with sync := { s.sync with isSynced := false } }

def tempIgnore (guard : Nat) : DisplayState δ :=
  if s.guards.get guard = none then
    { s with guards := s.guards.insert guard .held, tempIgnoreDisplaysChanged := true }
  else s

def clearIgnore (guard : Nat) : DisplayState δ :=
  if s.guards.get guard = some .held then
    { s with guards := s.guards.insert guard .cleared, tempIgnoreDisplaysChanged := false }
  else s

def dropGuard (guard : Nat) : DisplayState δ :=
  if s.guards.get guard = some .cleared then
    { s.unsync with guards := s.guards.remove guard }
  else s

def take [BEq δ] (s : DisplayState δ) : DisplayEvent δ → DisplayState δ
  | .checkChanged displays => s.checkChanged displays
  | .getUpdateSyncDisplays => s.getUpdateSyncDisplays
  | .snapshot hasSubscribes =>
    { s with subscribed := !s.tempIgnoreDisplaysChanged && hasSubscribes }
  | .newSubscriber => if s.subscribed then { s.unsync with subscribed := false } else s
  | .tempIgnore guard => s.tempIgnore guard
  | .clearIgnore guard => s.clearIgnore guard
  | .dropGuard guard => s.dropGuard guard

/-- The flag belongs to a guard that will clear it, and a list that is not announced to one that
will ask for it. -/
structure Inv : Prop where
  held : s.tempIgnoreDisplaysChanged = true → ∃ guard, s.guards.get guard = some .held
  announced : s.sync.isSynced = true → s.announced ≠ some s.sync.displays →
    ∃ guard, s.guards.get guard ≠ none

variable {s}

theorem Inv.checkChanged [BEq δ] (h : s.Inv) (displays : List δ) :
    (s.checkChanged displays).Inv := by
  refine ⟨h.held, fun hsynced hnew => ?_⟩
  simp only [DisplayState.checkChanged, SyncDisplaysInfo.checkChanged] at hsynced hnew
  split_ifs at hsynced hnew with hdiffers hignored
  · -- the change is not marked, but a guard will ask for it
    obtain ⟨guard, hguard⟩ := h.held hignored
    exact ⟨guard, fun hnone => by simp [DisplayState.checkChanged, hguard] at hnone⟩
  · exact h.announced hsynced hnew

theorem Inv.getUpdateSyncDisplays (h : s.Inv) : s.getUpdateSyncDisplays.Inv := by
  unfold DisplayState.getUpdateSyncDisplays SyncDisplaysInfo.getUpdateSyncDisplays
  split_ifs
  · exact h
  · exact ⟨h.held, fun _ hnew => absurd rfl hnew⟩

theorem Inv.tempIgnore (h : s.Inv) (guard : Nat) : (s.tempIgnore guard).Inv := by
  unfold DisplayState.tempIgnore
  split_ifs
  · exact ⟨fun _ => ⟨guard, Table.get_insert_self⟩, fun _ _ => ⟨guard, by simp⟩⟩
  · exact h

theorem Inv.clearIgnore (h : s.Inv) (guard : Nat) : (s.clearIgnore guard).Inv := by
  unfold DisplayState.clearIgnore
  split_ifs
  · exact ⟨by rintro ⟨⟩, fun _ _ => ⟨guard, by simp⟩⟩
  · exact h

theorem Inv.dropGuard (h : s.Inv) (guard : Nat) : (s.dropGuard guard).Inv := by
  unfold DisplayState.dropGuard
  split_ifs with hguard
  · refine ⟨fun hignored => ?_, by rintro ⟨⟩⟩
    obtain ⟨other, hother⟩ := h.held hignored
    have hne : other ≠ guard := by
      rintro rfl
      simp [hguard] at hother
    exact ⟨other, by rw [Table.get_remove, if_neg hne, hother]⟩
  · exact h

theorem Inv.take [BEq δ] (h : s.Inv) (event : DisplayEvent δ) : (s.take event).Inv := by
  cases event with
  | checkChanged displays => exact h.checkChanged displays
  | getUpdateSyncDisplays => exact h.getUpdateSyncDisplays
  | snapshot hasSubscribes => exact ⟨h.held, h.announced⟩
  | newSubscriber =>
    unfold DisplayState.take
    split_ifs
    · exact ⟨h.held, nofun⟩
    · exact h
  | tempIgnore guard => exact h.tempIgnore guard
  | clearIgnore guard => exact h.clearIgnore guard
  | dropGuard guard => exact h.dropGuard guard

variable [BEq δ]

theorem inv_run (events : List (DisplayEvent δ)) : (run take ({} : DisplayState δ) events).Inv := by
  have hstart : Inv ({} : DisplayState δ) := ⟨nofun, nofun⟩
  have hall : Allowed take (fun _ _ => True) ({} : DisplayState δ) events :=
    allowed_of_forall (fun _ _ => trivial) _ events
  exact run_keeps (fun s event h _ => h.take event) hstart hall

/-- Once all guards have ended, a list that is not marked is the one announced last. -/
theorem announced_of_synced (events : List (DisplayEvent δ))
    (hguards : ∀ guard, (run take ({} : DisplayState δ) events).guards.get guard = none)
    (hsynced : (run take ({} : DisplayState δ) events).sync.isSynced = true) :
    (run take ({} : DisplayState δ) events).announced =
      some (run take ({} : DisplayState δ) events).sync.displays := by
  by_contra hnew
  obtain ⟨guard, hguard⟩ := (inv_run events).announced hsynced hnew
  exact hguard (hguards guard)

end DisplayState

/-- Two guards overlap, and a change under the second one is announced behind its end. -/
def overlapping : List (DisplayEvent Nat) :=
  [.tempIgnore 0, .tempIgnore 1, .clearIgnore 0, .dropGuard 0, .getUpdateSyncDisplays,
    .checkChanged [1920], .clearIgnore 1, .dropGuard 1, .getUpdateSyncDisplays]

theorem overlapping_announced : (run DisplayState.take {} overlapping).announced = some [1920] :=
  DisplayState.announced_of_synced overlapping (fun guard => by rfl) rfl

end DisplayService

end MDesk
