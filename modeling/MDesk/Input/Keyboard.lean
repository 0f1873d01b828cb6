import MDesk.Core.Run
import MDesk.Core.Table
import MDesk.Input.Keys

/-!
# Translating keys

An event of the local keyboard becomes key events for the peer, in one of three modes. A press and
the release of the same key are translated apart, with what the system says at the time of each. Two
tables remember which modifiers are down and which keys are to be released when the keyboard goes
elsewhere.
-/

namespace MDesk

open Core

namespace Keyboard

/-- The system that the client is built for. -/
inductive TargetOs where
  | windows
  | macos
  | linux
  | mobile
deriving DecidableEq

/-- The tables of key codes that other software brings. -/
structure KeyCodes where
  winScancodeToMacosIsoCode : Nat → Option Nat := fun _ => none
  winScancodeToMacosCode : Nat → Option Nat := fun _ => none
  winScancodeToAndroidKeyCode : Nat → Option Nat := fun _ => none
  winScancodeToLinuxCode : Nat → Option Nat := fun _ => none
  macosCodeToWinScancode : Nat → Option Nat := fun _ => none
  macosCodeToAndroidKeyCode : Nat → Option Nat := fun _ => none
  macosCodeToLinuxCode : Nat → Option Nat := fun _ => none
  linuxCodeToWinScancode : Nat → Option Nat := fun _ => none
  linuxCodeToMacosIsoCode : Nat → Option Nat := fun _ => none
  linuxCodeToMacosCode : Nat → Option Nat := fun _ => none
  linuxCodeToAndroidKeyCode : Nat → Option Nat := fun _ => none
  usbHidCodeToWinScancode : Nat → Option Nat := fun _ => none
  usbHidCodeToLinuxCode : Nat → Option Nat := fun _ => none
  usbHidCodeToMacosIsoCode : Nat → Option Nat := fun _ => none
  usbHidCodeToMacosCode : Nat → Option Nat := fun _ => none
  usbHidCodeToAndroidKeyCode : Nat → Option Nat := fun _ => none

/-- What stays the same while keys are pressed. -/
structure Setup where
  targetOs : TargetOs
  keyboardMode : KeyboardMode
  peerPlatform : String
  /-- `str::to_lowercase`. -/
  toLowercase : String → String
  codes : KeyCodes
  /-- The layout type of the keyboard is ISO. -/
  isoLayout : Bool := false

/-- What the system says while an event is translated. -/
structure KeyState where
  numLock : Bool := false
  capsLock : Bool := false
  alt : Bool := false
  control : Bool := false
  shift : Bool := false
  command : Bool := false
  /-- `is_hot_key_modifiers_down`. -/
  hotKeyModifiers : Bool := false
  /-- `IS_0X021D_DOWN`. -/
  altGrDown : Bool := false
  /-- `IS_LEFT_OPTION_DOWN`. -/
  leftOptionDown : Bool := false
  /-- `get_unicode_from_vk` of the platform code. -/
  unicodeFromVk : Option Nat := none
  /-- `get_char_from_vk` of the platform code. -/
  charFromVk : Option Char := none
deriving DecidableEq

/-- The state of the translation. -/
structure KeyboardState where
  modifiersState : Key → Bool := fun _ => false
  toRelease : Table Key Event := ∅
  isAltGr : Bool := false

namespace Setup

variable (c : Setup)

def isWin : Bool := c.peerPlatform = "Windows"

/-- The name of the platform in small letters and without blanks. -/
def peer : String :=
  String.ofList ((c.toLowercase c.peerPlatform).toList.filter fun ch => !isWhiteSpace ch)

/-! ## The map mode -/

def keycode (event : Event) : Option Nat :=
  match c.targetOs with
  | .windows =>
    if c.peer = "windows" then
      if 255 < event.positionCode ∧ event.positionCode / 2 ^ 8 ≠ 0xE0 then none
      else some event.positionCode
    else if c.peer = "macos" then
      if c.isoLayout then c.codes.winScancodeToMacosIsoCode event.positionCode
      else c.codes.winScancodeToMacosCode event.positionCode
    else if c.peer = "android" then c.codes.winScancodeToAndroidKeyCode event.positionCode
    else c.codes.winScancodeToLinuxCode event.positionCode
  | .macos =>
    if c.peer = "windows" then c.codes.macosCodeToWinScancode event.platformCode
    else if c.peer = "macos" then some event.platformCode
    else if c.peer = "android" then c.codes.macosCodeToAndroidKeyCode event.platformCode
    else c.codes.macosCodeToLinuxCode event.platformCode
  | .linux =>
    if c.peer = "windows" then c.codes.linuxCodeToWinScancode event.positionCode
    else if c.peer = "macos" then
      if c.isoLayout then c.codes.linuxCodeToMacosIsoCode event.positionCode
      else c.codes.linuxCodeToMacosCode event.positionCode
    else if c.peer = "android" then c.codes.linuxCodeToAndroidKeyCode event.positionCode
    else some event.positionCode
  | .mobile =>
    if c.peer = "windows" then c.codes.usbHidCodeToWinScancode event.usbHid
    else if c.peer = "linux" then c.codes.usbHidCodeToLinuxCode event.usbHid
    else if c.peer = "macos" then
      if c.isoLayout then c.codes.usbHidCodeToMacosIsoCode event.usbHid
      else c.codes.usbHidCodeToMacosCode event.usbHid
    else if c.peer = "android" then c.codes.usbHidCodeToAndroidKeyCode event.usbHid
    else some event.usbHid

def mapKeyboardMode (event : Event) (keyEvent : KeyEvent) : List KeyEvent :=
  match event.key with
  | none => []
  | some _ =>
    match c.keycode event with
    | none => []
    | some keycode => [{ keyEvent with down := isPress event, union := some (.chr keycode) }]

/-! ## The translate mode -/

/-- The text that an event has produced. -/
def tryFillUnicode (event : Event) (v : KeyState) (keyEvent : KeyEvent) : List KeyEvent :=
  match event.unicode with
  | some unicodeInfo =>
    match unicodeInfo.name with
    | some (ch :: name) => [{ keyEvent with union := some (.seq (ch :: name)), down := true }]
    | _ => []
  | none =>
    if c.targetOs = .windows ∧ c.peer = "linux" ∧ v.hotKeyModifiers ∧ ¬v.altGrDown then
      match v.charFromVk with
      | some chr => [{ keyEvent with union := some (.seq [chr]), down := true }]
      | none => []
    else []

def tryFillWin2winHotkey (event : Event) (v : KeyState) (keyEvent : KeyEvent) : List KeyEvent :=
  if c.peer = "windows" ∧ v.hotKeyModifiers ∧ ¬v.altGrDown then
    match event.eventType with
    | .keyPress _ =>
      match v.unicodeFromVk with
      | some unicode =>
        [{ keyEvent with
            union := some (.win2winHotkey (event.platformCode * 2 ^ 16 % 2 ^ 32 + unicode % 2 ^ 16))
            down := true }]
      | none => []
    | .keyRelease _ =>
      [{ keyEvent with
          union := some (.win2winHotkey (event.platformCode * 2 ^ 16 % 2 ^ 32)), down := false }]
    | .other => []
  else []

/-- The event is of the key that is held for other characters. -/
def isAltgr (event : Event) (v : KeyState) : Bool :=
  match c.targetOs with
  | .linux => event.platformCode = 0xFE03
  | .windows => v.altGrDown && event.positionCode = 0xE038
  | _ => false

/-- A dead key waits for the next one. -/
def isDead (event : Event) (v : KeyState) : Bool :=
  event.unicode.any UnicodeInfo.isDead &&
    !(c.targetOs = .macos && c.peer ≠ "macos" && v.leftOptionDown)

/-- The right option key. -/
def kVKRightOption : Nat := 0x3D

def translateOnMacos (event : Event) (v : KeyState) (keyEvent : KeyEvent) : List KeyEvent :=
  if event.platformCode = kVKRightOption then []
  else
    let events := if v.leftOptionDown then [] else c.tryFillUnicode event v keyEvent
    if events = [] then c.mapKeyboardMode event keyEvent else events

def translateOnLinux (event : Event) (v : KeyState) (keyEvent : KeyEvent) : List KeyEvent :=
  if c.isAltgr event v then []
  else
    let events := if isPress event then c.tryFillUnicode event v keyEvent else []
    if events = [] then c.mapKeyboardMode event keyEvent else events

def translateOnWindows (event : Event) (v : KeyState) (keyEvent : KeyEvent) : List KeyEvent :=
  if c.isAltgr event v ∨ event.positionCode = 0x021D then []
  else
    let events := c.tryFillWin2winHotkey event v keyEvent
    let events :=
      if events = [] ∧ isPress event then c.tryFillUnicode event v keyEvent else events
    -- the key for other characters lets nothing but text through
    if v.altGrDown then events
    else if events = [] then c.mapKeyboardMode event keyEvent
    else events

def translateKeyboardMode (event : Event) (v : KeyState) (keyEvent : KeyEvent) : List KeyEvent :=
  if c.isDead event v then []
  else if c.targetOs ≠ .mobile ∧ isNumpadKey event then c.mapKeyboardMode event keyEvent
  else
    match c.targetOs with
    | .macos => c.translateOnMacos event v keyEvent
    | .linux => c.translateOnLinux event v keyEvent
    | .windows => c.translateOnWindows event v keyEvent
    | .mobile => c.mapKeyboardMode event keyEvent

/-! ## The legacy mode -/

def convertNumpadKeys (numLock : Bool) (key : Key) : Key :=
  if numLock then key else unlockedNumpadKey key

/-- The control key is not down where it only belongs to the key for other characters. -/
def legacyCtrl (isAltGr : Bool) (key : Key) (v : KeyState) : Bool × Bool :=
  if c.targetOs = .windows ∧ isAltGr then
    if v.alt ∨ key = .altGr then (false, true) else (v.control, false)
  else (v.control, isAltGr)

/-- The character that an event stands for. -/
def legacyChr (key : Key) (event : Event) : Char :=
  let chr :=
    match event.unicode.bind UnicodeInfo.name with
    | some name =>
      -- a longer one is no letter of a small alphabet
      if (utf8Bytes name).length ≤ 2 then name.headD (Char.ofNat 0) else Char.ofNat 0
    | none => Char.ofNat 0
  let chr := if chr = '·' then Char.ofNat 0x60 else chr
  if chr = Char.ofNat 0 then chrOf key else chr

/-- The modifiers that are down go along with a key that is not one of them. -/
def legacyModifiers (keyEvent : KeyEvent) (alt ctrl shift command : Bool) : KeyEvent :=
  let is key := keyEvent.union = some (.controlKey key)
  { keyEvent with
    modifiers := keyEvent.modifiers ++
      (if alt ∧ ¬is .alt ∧ ¬is .rAlt then [.alt] else []) ++
      (if shift ∧ ¬is .shift ∧ ¬is .rShift then [.shift] else []) ++
      (if ctrl ∧ ¬is .control ∧ ¬is .rControl then [.control] else []) ++
      (if command ∧ ¬is .metaKey ∧ ¬is .rWin then [.metaKey] else []) }

def eventLockScreen : KeyEvent :=
  { mode := .legacy, union := some (.controlKey .lockScreen), down := true }

def eventCtrlAltDel : KeyEvent :=
  if c.isWin then { mode := .legacy, union := some (.controlKey .ctrlAltDel), down := true }
  else
    { legacyModifiers { mode := .legacy, union := some (.controlKey .delete) } true true false false
      with press := true }

/-- A key event with the modifiers of the state and of the system. -/
def legacyEvent (s : KeyboardState) (event : Event) (v : KeyState) (ctrl : Bool)
    (keyEvent : KeyEvent) : KeyEvent :=
  let m := s.modifiersState
  { legacyModifiers keyEvent (m .alt || m .altGr || v.alt)
      (m .controlLeft || m .controlRight || ctrl) (m .shiftLeft || m .shiftRight || v.shift)
      (m .metaLeft || m .metaRight || v.command) with down := isPress event || keyEvent.down }

/-- The key that the legacy mode goes by. -/
def legacyKey (key : Key) (v : KeyState) : Key :=
  if c.isWin then convertNumpadKeys v.numLock key else key

/-- The state behind an event of a key, what is sent at once, and the key events of the event. -/
def legacyTranslate (s : KeyboardState) (key : Key) (ctrl : Bool) (event : Event) (v : KeyState)
    (keyEvent : KeyEvent) : KeyboardState × List KeyEvent × List KeyEvent :=
  if c.targetOs = .windows ∧ key = .controlLeft ∧ event.positionCode / 2 ^ 8 = 0xE0 then
    ({ s with isAltGr := true }, [], [])
  else if key = .delete ∧ c.isWin ∧ ctrl ∧ v.alt then (s, [c.eventCtrlAltDel], [])
  else if key ∈ [.capsLock, .numLock, .scrollLock] then (s, [], [])
  else
    match controlKeyOf key with
    | some k =>
      (s, [], [legacyEvent s event v ctrl { keyEvent with union := some (.controlKey k) }])
    | none =>
      if legacyChr key event = Char.ofNat 0 then (s, [], [])
      else if legacyChr key event = 'l' ∧ c.isWin ∧ v.command then (s, [eventLockScreen], [])
      else
        (s, [], [legacyEvent s event v ctrl
          { keyEvent with union := some (.chr (legacyChr key event).toNat) }])

def legacyKeyboardMode (s : KeyboardState) (event : Event) (v : KeyState) (keyEvent : KeyEvent) :
    KeyboardState × List KeyEvent × List KeyEvent :=
  if c.targetOs = .mobile then (s, [], [])
  else
    match event.key with
    | none => (s, [], [])
    | some key =>
      let key := c.legacyKey key v
      let (ctrl, isAltGr) := c.legacyCtrl s.isAltGr key v
      c.legacyTranslate { s with isAltGr } key ctrl event v keyEvent

/-! ## Events -/

def isLongPress (s : KeyboardState) (event : Event) : Bool :=
  match event.eventType with
  | .keyPress key => isModifier key && s.modifiersState key
  | _ => false

def updateModifiersState (s : KeyboardState) (event : Event) : KeyboardState :=
  let set key state := { s with
    modifiersState := fun k => if k = key ∧ isModifier key then state else s.modifiersState k }
  match event.eventType with
  | .keyPress key => set key true
  | .keyRelease key => set key false
  | .other => s

def updateToRelease (s : KeyboardState) (event : Event) : KeyboardState :=
  match event.eventType with
  | .keyPress key => { s with toRelease := s.toRelease.insert key event }
  | .keyRelease key => { s with toRelease := s.toRelease.remove key }
  | .other => s

/-- The lock modes that go along with the keys they matter to. -/
def lockModesModifiers (event : Event) (lockModes : Option (BitVec 32)) (v : KeyState) :
    List ControlKey :=
  let caps : Bool := match lockModes with
    | some lockModes => lockModes.getLsbD 1
    | none => c.targetOs ≠ .mobile && v.capsLock
  let num : Bool := match lockModes with
    | some lockModes => lockModes.getLsbD 2
    | none => c.targetOs ≠ .mobile && v.numLock
  (if isLetterKey4LockModes event ∧ caps then [.capsLock] else []) ++
    if isNumpadKey event ∧ num then [.numLock] else []

def addLockModes (event : Event) (lockModes : Option (BitVec 32)) (v : KeyState)
    (keyEvents : List KeyEvent) : List KeyEvent :=
  if c.keyboardMode ≠ .translate ∨ isNumpadKey event then
    keyEvents.map fun e =>
      { e with modifiers := e.modifiers ++ c.lockModesModifiers event lockModes v }
  else keyEvents

/-- The state behind an event, and what is sent, in order. -/
def eventToKeyEvents (s : KeyboardState) (event : Event) (lockModes : Option (BitVec 32))
    (v : KeyState) : KeyboardState × List KeyEvent :=
  let s := updateToRelease (updateModifiersState s event) event
  let keyEvent : KeyEvent := { mode := c.keyboardMode }
  let (s, atOnce, keyEvents) :=
    match c.keyboardMode with
    | .map => (s, [], c.mapKeyboardMode event keyEvent)
    | .translate => (s, [], c.translateKeyboardMode event v keyEvent)
    | .legacy => c.legacyKeyboardMode s event v keyEvent
  (s, atOnce ++ c.addLockModes event lockModes v keyEvents)

end Setup

/-- A call of `process_event`, with what the system says meanwhile. -/
structure Call where
  event : Event
  lockModes : Option (BitVec 32) := none
  state : KeyState := {}

/-- The state, and all that has been sent. -/
structure Client where
  keyboard : KeyboardState := {}
  sent : List KeyEvent := []

def Setup.processEvent (c : Setup) (s : Client) (call : Call) : Client :=
  if Setup.isLongPress s.keyboard call.event then s
  else
    let (keyboard, keyEvents) :=
      c.eventToKeyEvents s.keyboard call.event call.lockModes call.state
    { keyboard, sent := s.sent ++ keyEvents }

/-- The calls that release a key. One that may have switched the window is pressed and released once
more. -/
def releaseKey (key : Key) (event : Event) (later : Nat → KeyState) : List Call :=
  let release := { event with eventType := .keyRelease key }
  let press := { event with eventType := .keyPress key }
  { event := release, state := later 0 } ::
    if key = .alt ∨ key = .altGr then
      [{ event := press, state := later 1 }, { event := release, state := later 2 }]
    else []

/-- The calls for the entries of a table, in the order they come in. -/
def releaseCalls (entries : List (Sigma fun _ : Key => Event)) (later : Key → Nat → KeyState) :
    List Call :=
  entries.flatMap fun e => releaseKey e.1 e.2 (later e.1)

def Client.clearToRelease (s : Client) : Client :=
  { s with keyboard := { s.keyboard with toRelease := ∅ } }

def Setup.releaseRemoteKeys (c : Setup) (s : Client)
    (entries : List (Sigma fun _ : Key => Event)) (later : Key → Nat → KeyState) : Client :=
  run c.processEvent s.clearToRelease (releaseCalls entries later)

end Keyboard

end MDesk
