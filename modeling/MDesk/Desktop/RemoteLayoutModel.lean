import MDesk.Core.Run
import MDesk.Core.Slots

/-!
# The split screen

A window shows one remote screen, or several in the panes of a split. The six slots belong to
all splits: a narrow one shows the first of them and hides the others.
-/

namespace MDesk

open Core

namespace Desktop

inductive RemoteLayoutMode where
  | single
  | sideBySide
  | stacked
  | quad
  | sixWide
  | sixTall
deriving DecidableEq

namespace RemoteLayoutMode

def columns : RemoteLayoutMode → Nat
  | .single | .stacked => 1
  | .sixWide => 3
  | _ => 2

def rows : RemoteLayoutMode → Nat
  | .single | .sideBySide => 1
  | .sixTall => 3
  | _ => 2

def capacity (mode : RemoteLayoutMode) : Nat := mode.columns * mode.rows

theorem capacity_pos (mode : RemoteLayoutMode) : 0 < mode.capacity := by cases mode <;> decide

theorem capacity_le (mode : RemoteLayoutMode) : mode.capacity ≤ 6 := by cases mode <;> decide

end RemoteLayoutMode

structure RemotePaneTarget where
  peerId : String
  display : Int
deriving DecidableEq

/-- The slot holds a screen of a peer. -/
def hasPeer (peerId : String) (target : Option RemotePaneTarget) : Bool :=
  target.any fun target => target.peerId = peerId

/-- The layout of one window. The shares of the panes are of any type. -/
structure RemoteLayoutModel (ς : Type*) where
  mode : RemoteLayoutMode
  lastSplitMode : RemoteLayoutMode
  slots : Slots 6 RemotePaneTarget
  activeSlot : Fin 6
  sizes : ς

namespace RemoteLayoutModel

variable {ς : Type*}

/-- A new layout. -/
def new (sizes : ς) : RemoteLayoutModel ς :=
  { mode := .single, lastSplitMode := .sideBySide, slots := fun _ => none, activeSlot := 0, sizes }

def isSplit (m : RemoteLayoutModel ς) : Prop := m.mode ≠ .single

instance (m : RemoteLayoutModel ς) : Decidable m.isSplit := inferInstanceAs (Decidable (_ ≠ _))

/-- The slot is shown. -/
def visible (m : RemoteLayoutModel ς) (i : Fin 6) : Prop := (i : Nat) < m.mode.capacity

instance (m : RemoteLayoutModel ς) (i : Fin 6) : Decidable (m.visible i) :=
  inferInstanceAs (Decidable (_ < _))

def activeTarget (m : RemoteLayoutModel ς) : Option RemotePaneTarget := m.slots m.activeSlot

/-- The first slot shown that meets a condition. -/
def firstVisible (m : RemoteLayoutModel ς) (p : Option RemotePaneTarget → Bool) :
    Option (Fin 6) :=
  m.slots.find fun i target => decide (m.visible i) && p target

def visibleTargets (m : RemoteLayoutModel ς) : List RemotePaneTarget :=
  if m.isSplit then ((List.finRange 6).filter fun i => m.visible i).filterMap m.slots else []

/-- The slot of a number, if it is shown. -/
def slot (m : RemoteLayoutModel ς) (slot : Int) : Option (Fin 6) :=
  if h : 0 ≤ slot ∧ slot < m.mode.capacity then
    some ⟨slot.toNat, by have := m.mode.capacity_le; omega⟩
  else none

/-- An empty layout begins with the screen that was on view. -/
def seeded (m : RemoteLayoutModel ς) (initialTarget : Option RemotePaneTarget) :
    Slots 6 RemotePaneTarget :=
  if ∀ i, m.slots i = none then m.slots.put 0 initialTarget else m.slots

def setMode (m : RemoteLayoutModel ς) (mode : RemoteLayoutMode)
    (initialTarget : Option RemotePaneTarget) : RemoteLayoutModel ς :=
  if mode = m.mode then m
  else if mode = .single then { m with mode }
  else if mode.capacity ≤ m.activeSlot then
    -- the active screen stays on view in a split that does not reach its slot
    { m with
      mode, lastSplitMode := mode, slots := (m.seeded initialTarget).swap 0 m.activeSlot
      activeSlot := 0 }
  else { m with mode, lastSplitMode := mode, slots := m.seeded initialTarget }

def restoreSplit (m : RemoteLayoutModel ς) : RemoteLayoutModel ς := m.setMode m.lastSplitMode none

def activate (m : RemoteLayoutModel ς) (slot : Int) : RemoteLayoutModel ς :=
  match m.slot slot with
  | some i => { m with activeSlot := i }
  | none => m

def assign (m : RemoteLayoutModel ς) (slot : Int) (target : Option RemotePaneTarget) :
    RemoteLayoutModel ς :=
  match m.slot slot, target with
  | none, _ => m
  | some i, none => { m with slots := m.slots.put i none, activeSlot := i }
  | some i, some target =>
    match m.slots.indexOf target with
    | some existing =>
      if m.visible existing then { m with activeSlot := existing }
      else { m with slots := m.slots.moveTo i target, activeSlot := i }
    | none => { m with slots := m.slots.moveTo i target, activeSlot := i }

def selectPeer (m : RemoteLayoutModel ς) (peerId : String) (defaultDisplay : Int) :
    RemoteLayoutModel ς :=
  if ¬m.isSplit ∨ hasPeer peerId m.activeTarget then m
  else
    match m.firstVisible (hasPeer peerId) with
    | some index => m.activate index
    | none => m.assign m.activeSlot (some ⟨peerId, defaultDisplay⟩)

def placeNewPeer (m : RemoteLayoutModel ς) (peerId : String) (defaultDisplay : Int) :
    RemoteLayoutModel ς :=
  if ¬m.isSplit ∨ hasPeer peerId m.activeTarget then m
  else
    match m.firstVisible (hasPeer peerId) with
    | some existing => m.activate existing
    | none =>
      let empty :=
        if m.activeTarget = none then some m.activeSlot else m.firstVisible Option.isNone
      m.assign (empty.getD 0) (some ⟨peerId, if defaultDisplay < 0 then 0 else defaultDisplay⟩)

def moveToEmpty (m : RemoteLayoutModel ς) (slot : Int) (target : RemotePaneTarget) :
    RemoteLayoutModel ς :=
  match m.slot slot with
  | some i =>
    if ¬m.isSplit ∨ m.slots i ≠ none then m
    else { m with slots := m.slots.moveTo i target, activeSlot := i }
  | none => m

def removeTarget (m : RemoteLayoutModel ς) (target : RemotePaneTarget) : RemoteLayoutModel ς :=
  { m with slots := m.slots.remove target }

def arrange (m : RemoteLayoutModel ς) (targets : List RemotePaneTarget) : RemoteLayoutModel ς :=
  if m.isSplit then
    { m with slots := fun i => (targets.eraseDups.take m.mode.capacity)[(i : Nat)]?,
             activeSlot := 0 }
  else m

/-- The vacant panes are filled, with one screen of each peer not on view. -/
def fillEmpty (m : RemoteLayoutModel ς) (peers : List String) :
    List RemotePaneTarget → RemoteLayoutModel ς
  | [] => m
  | target :: targets =>
    if target.peerId ∈ peers then m.fillEmpty peers targets
    else
      match m.firstVisible Option.isNone with
      | some empty =>
        fillEmpty { m with slots := m.slots.moveTo empty target } (target.peerId :: peers) targets
      | none => m

def fillEmptyPeers (m : RemoteLayoutModel ς) (targets : List RemotePaneTarget) :
    RemoteLayoutModel ς :=
  if m.isSplit then m.fillEmpty (m.visibleTargets.map RemotePaneTarget.peerId) targets else m

def retainPeers (m : RemoteLayoutModel ς) (peers : List String) : RemoteLayoutModel ς :=
  { m with slots := fun i => (m.slots i).filter fun target => target.peerId ∈ peers }

/-- Moving a divider changes nothing but the shares. -/
def resize (m : RemoteLayoutModel ς) (resized : RemoteLayoutMode → ς → ς) : RemoteLayoutModel ς :=
  { m with sizes := resized m.mode m.sizes }

end RemoteLayoutModel

inductive LayoutOperation (ς : Type*) where
  | setMode (mode : RemoteLayoutMode) (initialTarget : Option RemotePaneTarget)
  | restoreSplit
  | activate (slot : Int)
  | assign (slot : Int) (target : Option RemotePaneTarget)
  | selectPeer (peerId : String) (defaultDisplay : Int)
  | placeNewPeer (peerId : String) (defaultDisplay : Int)
  | moveToEmpty (slot : Int) (target : RemotePaneTarget)
  | removeTarget (target : RemotePaneTarget)
  | arrange (targets : List RemotePaneTarget)
  | fillEmptyPeers (targets : List RemotePaneTarget)
  | retainPeers (peers : List String)
  | resize (resized : RemoteLayoutMode → ς → ς)

def RemoteLayoutModel.operate {ς : Type*} (m : RemoteLayoutModel ς) :
    LayoutOperation ς → RemoteLayoutModel ς
  | .setMode mode initialTarget => m.setMode mode initialTarget
  | .restoreSplit => m.restoreSplit
  | .activate slot => m.activate slot
  | .assign slot target => m.assign slot target
  | .selectPeer peerId defaultDisplay => m.selectPeer peerId defaultDisplay
  | .placeNewPeer peerId defaultDisplay => m.placeNewPeer peerId defaultDisplay
  | .moveToEmpty slot target => m.moveToEmpty slot target
  | .removeTarget target => m.removeTarget target
  | .arrange targets => m.arrange targets
  | .fillEmptyPeers targets => m.fillEmptyPeers targets
  | .retainPeers peers => m.retainPeers peers
  | .resize resized => m.resize resized

end Desktop

end MDesk
