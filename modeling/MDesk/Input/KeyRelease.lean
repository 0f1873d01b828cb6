import MDesk.Input.Keyboard

/-!
# Keys that are left down

Every press that has been sent is to be taken back: by the release of the same key, or by the last
release of all keys. It is where the release is translated like the press. What the key events mean
depends on the lock states and the produced characters, so a release may stand for another key than
its press, or for none.
-/

namespace MDesk

open Core

namespace Keyboard

/-- The way an event goes in the translate mode. -/
inductive Route where
  | dropped
  | text
  | hotkey
  | keycode
deriving DecidableEq

namespace Setup

variable (c : Setup)

def ProducesText (event : Event) (v : KeyState) : Prop :=
  match event.unicode with
  | some unicodeInfo => ∃ ch name, unicodeInfo.name = some (ch :: name)
  | none => c.targetOs = .windows ∧ c.peer = "linux" ∧ v.hotKeyModifiers ∧ ¬v.altGrDown ∧
      v.charFromVk.isSome

instance (event : Event) (v : KeyState) : Decidable (c.ProducesText event v) := by
  unfold ProducesText
  split
  · rename_i unicodeInfo _
    exact match unicodeInfo.name with
      | none => .isFalse nofun
      | some [] => .isFalse nofun
      | some (ch :: name) => .isTrue ⟨ch, name, rfl⟩
  · infer_instance

def UsesHotkey (event : Event) (v : KeyState) : Prop :=
  c.peer = "windows" ∧ v.hotKeyModifiers ∧ ¬v.altGrDown ∧
    (isPress event → v.unicodeFromVk.isSome)

instance (event : Event) (v : KeyState) : Decidable (c.UsesHotkey event v) :=
  inferInstanceAs (Decidable (_ ∧ _))

def routeOnMacos (event : Event) (v : KeyState) : Route :=
  if event.platformCode = kVKRightOption then .dropped
  else if ¬v.leftOptionDown ∧ c.ProducesText event v then .text
  else .keycode

def routeOnLinux (event : Event) (v : KeyState) : Route :=
  if c.isAltgr event v then .dropped
  else if isPress event ∧ c.ProducesText event v then .text
  else .keycode

def routeOnWindows (event : Event) (v : KeyState) : Route :=
  if c.isAltgr event v ∨ event.positionCode = 0x021D then .dropped
  else if c.UsesHotkey event v then .hotkey
  else if isPress event ∧ c.ProducesText event v then .text
  else if v.altGrDown then .dropped
  else .keycode

def route (event : Event) (v : KeyState) : Route :=
  if c.isDead event v then .dropped
  else if c.targetOs ≠ .mobile ∧ isNumpadKey event then .keycode
  else
    match c.targetOs with
    | .macos => c.routeOnMacos event v
    | .linux => c.routeOnLinux event v
    | .windows => c.routeOnWindows event v
    | .mobile => .keycode

/-- The remote key of a route. -/
def routeKey (event : Event) : Route → Option RemoteKey
  | .dropped | .text => none
  | .hotkey => some (.hotkey (event.platformCode % 2 ^ 16))
  | .keycode => (c.keycode event).map .chr

/-- A key event is a command to a peer with Windows. It presses a key that nothing releases. -/
def SendsCommand (key : Key) (ctrl : Bool) (event : Event) (v : KeyState) : Prop :=
  c.isWin ∧ (key = .delete ∧ ctrl ∧ v.alt ∨
    controlKeyOf key = none ∧ key ∉ [.capsLock, .numLock, .scrollLock] ∧
      legacyChr key event = 'l' ∧ v.command)

def IsCommand (isAltGr : Bool) (call : Call) : Prop :=
  c.keyboardMode = .legacy ∧ c.targetOs ≠ .mobile ∧ ∃ key ∈ call.event.key,
    c.SendsCommand (c.legacyKey key call.state)
      (c.legacyCtrl isAltGr (c.legacyKey key call.state) call.state).1 call.event call.state

/-- The remote key that the legacy mode makes of an event of a key. -/
def legacyRemoteKey (key : Key) (event : Event) : Option RemoteKey :=
  if c.targetOs = .windows ∧ key = .controlLeft ∧ event.positionCode / 2 ^ 8 = 0xE0 then none
  else if key ∈ [.capsLock, .numLock, .scrollLock] then none
  else
    match controlKeyOf key with
    | some k => some (.controlKey k)
    | none =>
      if legacyChr key event = Char.ofNat 0 then none
      else some (.chr (legacyChr key event).toNat)

/-- The remote key that an event stands for. -/
def remoteKey (event : Event) (v : KeyState) : Option RemoteKey :=
  event.key.bind fun key =>
    match c.keyboardMode with
    | .map => (c.keycode event).map .chr
    | .translate => c.routeKey event (c.route event v)
    | .legacy =>
      if c.targetOs = .mobile then none else c.legacyRemoteKey (c.legacyKey key v) event

variable {c} {event : Event} {v : KeyState} {e : KeyEvent}

theorem mapKeyboardMode_strokes (hkey : event.key ≠ none) :
    (c.mapKeyboardMode event e).filterMap KeyEvent.stroke =
      (((c.keycode event).map RemoteKey.chr).map fun key => (key, isPress event)).toList := by
  obtain ⟨key, hkey⟩ := Option.ne_none_iff_exists'.mp hkey
  unfold mapKeyboardMode
  cases hcode : c.keycode event with
  | none => simp [hkey]
  | some code => simp [hkey, KeyEvent.stroke, KeyUnion.remoteKey]

theorem tryFillUnicode_strokes (c : Setup) (event : Event) (v : KeyState) (e : KeyEvent) :
    (c.tryFillUnicode event v e).filterMap KeyEvent.stroke = [] ∧
      (c.tryFillUnicode event v e = [] ↔ ¬c.ProducesText event v) := by
  unfold tryFillUnicode ProducesText
  cases hunicode : event.unicode with
  | none =>
    dsimp only
    split_ifs with hfill
    · cases hchr : v.charFromVk with
      | none => simp
      | some chr => simp [hfill, KeyEvent.stroke, KeyUnion.remoteKey]
    · refine ⟨rfl, iff_of_true rfl fun htext => hfill ?_⟩
      exact ⟨htext.1, htext.2.1, htext.2.2.1, htext.2.2.2.1⟩
  | some unicodeInfo =>
    dsimp only
    split
    · rename_i ch name hname
      simp [hname, KeyEvent.stroke, KeyUnion.remoteKey]
    · rename_i hname
      refine ⟨rfl, iff_of_true rfl ?_⟩
      rintro ⟨ch, name, hsome⟩
      exact hname ch name hsome

theorem tryFillWin2winHotkey_strokes (c : Setup) (v : KeyState) (e : KeyEvent)
    (hkey : event.key ≠ none) :
    (c.tryFillWin2winHotkey event v e).filterMap KeyEvent.stroke =
      (if c.UsesHotkey event v then
        [(RemoteKey.hotkey (event.platformCode % 2 ^ 16), isPress event)] else []) ∧
      (c.tryFillWin2winHotkey event v e = [] ↔ ¬c.UsesHotkey event v) := by
  have hhigh (unicode : Nat) : (event.platformCode * 2 ^ 16 % 2 ^ 32 + unicode % 2 ^ 16) / 2 ^ 16 =
      event.platformCode % 2 ^ 16 := by omega
  have hhigh' : event.platformCode * 2 ^ 16 % 2 ^ 32 / 2 ^ 16 = event.platformCode % 2 ^ 16 := by
    omega
  by_cases hmodifiers : c.peer = "windows" ∧ v.hotKeyModifiers ∧ ¬v.altGrDown
  · have huses : c.UsesHotkey event v ↔ (isPress event → v.unicodeFromVk.isSome) :=
      ⟨fun h => h.2.2.2, fun h => ⟨hmodifiers.1, hmodifiers.2.1, hmodifiers.2.2, h⟩⟩
    simp only [tryFillWin2winHotkey, if_pos hmodifiers, huses]
    cases htype : event.eventType with
    | keyPress key =>
      have hpress : isPress event = true := by simp [isPress, htype]
      rcases v.unicodeFromVk.eq_none_or_eq_some with hunicode | ⟨unicode, hunicode⟩
      · simp [hpress, hunicode]
      · simp only [hpress, hunicode, Option.isSome_some, imp_self, if_true]
        constructor
        · simp only [KeyEvent.stroke, KeyUnion.remoteKey, List.filterMap_cons, Option.bind_some,
            Option.map_some, hhigh, List.filterMap_nil]
        · simp
    | keyRelease key =>
      have hpress : isPress event = false := by simp [isPress, htype]
      simp only [hpress, Bool.false_eq_true, false_imp_iff, if_true]
      constructor
      · simp only [KeyEvent.stroke, KeyUnion.remoteKey, List.filterMap_cons, Option.bind_some,
          Option.map_some, hhigh', List.filterMap_nil]
      · simp
    | other => simp [Event.key, htype] at hkey
  · have hnone : ¬c.UsesHotkey event v := fun h => hmodifiers ⟨h.1, h.2.1, h.2.2.1⟩
    rw [tryFillWin2winHotkey, if_neg hmodifiers, if_neg hnone]
    exact ⟨rfl, iff_of_true rfl hnone⟩

/-- Where text is sent, no key code is. -/
theorem fallback_strokes (hkey : event.key ≠ none) {events : List KeyEvent} {p : Prop} [Decidable p]
    (hevents : events.filterMap KeyEvent.stroke = []) (hnone : events = [] ↔ ¬p) :
    (if events = [] then c.mapKeyboardMode event e else events).filterMap KeyEvent.stroke =
      ((c.routeKey event (if p then .text else .keycode)).map
        fun key => (key, isPress event)).toList := by
  by_cases hp : p
  · rw [if_neg (mt hnone.mp (not_not.mpr hp)), if_pos hp, hevents]
    rfl
  · rw [if_pos (hnone.mpr hp), if_neg hp, mapKeyboardMode_strokes hkey]
    rfl

/-- Text is sent where it may be and there is some. -/
theorem ite_tryFillUnicode_strokes (c : Setup) (event : Event) (v : KeyState) (e : KeyEvent)
    (p : Prop) [Decidable p] :
    (if p then c.tryFillUnicode event v e else []).filterMap KeyEvent.stroke = [] ∧
      ((if p then c.tryFillUnicode event v e else []) = [] ↔ ¬(p ∧ c.ProducesText event v)) := by
  obtain ⟨htext, hnone⟩ := tryFillUnicode_strokes c event v e
  split_ifs with hp
  · exact ⟨htext, hnone.trans (by simp [hp])⟩
  · exact ⟨rfl, by simp [hp]⟩

theorem translateOnMacos_strokes (hkey : event.key ≠ none) :
    (c.translateOnMacos event v e).filterMap KeyEvent.stroke =
      ((c.routeKey event (c.routeOnMacos event v)).map fun key => (key, isPress event)).toList := by
  obtain ⟨htext, hnone⟩ := ite_tryFillUnicode_strokes c event v e (¬v.leftOptionDown)
  rw [ite_not] at htext hnone
  unfold translateOnMacos routeOnMacos
  by_cases hoption : event.platformCode = kVKRightOption
  · rw [if_pos hoption, if_pos hoption]
    rfl
  · rw [if_neg hoption, if_neg hoption]
    exact fallback_strokes hkey htext hnone

theorem translateOnLinux_strokes (hkey : event.key ≠ none) :
    (c.translateOnLinux event v e).filterMap KeyEvent.stroke =
      ((c.routeKey event (c.routeOnLinux event v)).map fun key => (key, isPress event)).toList := by
  obtain ⟨htext, hnone⟩ := ite_tryFillUnicode_strokes c event v e (isPress event)
  unfold translateOnLinux routeOnLinux
  by_cases haltgr : c.isAltgr event v
  · rw [if_pos haltgr, if_pos haltgr]
    rfl
  · rw [if_neg haltgr, if_neg haltgr]
    exact fallback_strokes hkey htext hnone

theorem translateOnWindows_strokes (hkey : event.key ≠ none) :
    (c.translateOnWindows event v e).filterMap KeyEvent.stroke =
      ((c.routeKey event (c.routeOnWindows event v)).map
        fun key => (key, isPress event)).toList := by
  obtain ⟨htext, hnone⟩ := ite_tryFillUnicode_strokes c event v e (isPress event)
  obtain ⟨hhotkey, hhotkeyNone⟩ := tryFillWin2winHotkey_strokes c v e hkey
  unfold translateOnWindows routeOnWindows
  by_cases haltgr : c.isAltgr event v ∨ event.positionCode = 0x021D
  · rw [if_pos haltgr, if_pos haltgr]
    rfl
  · rw [if_neg haltgr, if_neg haltgr]
    by_cases huses : c.UsesHotkey event v
    · have hsome : c.tryFillWin2winHotkey event v e ≠ [] := mt hhotkeyNone.mp (not_not.mpr huses)
      simp only [hsome, false_and, if_false, ite_self, if_pos huses]
      rw [hhotkey, if_pos huses]
      rfl
    · have hnoHotkey := hhotkeyNone.mpr huses
      simp only [hnoHotkey, true_and, if_neg huses]
      by_cases hdown : v.altGrDown
      · rw [if_pos hdown, htext]
        split_ifs <;> rfl
      · rw [if_neg hdown, if_neg hdown]
        exact fallback_strokes hkey htext hnone

theorem translateKeyboardMode_strokes (hkey : event.key ≠ none) :
    (c.translateKeyboardMode event v e).filterMap KeyEvent.stroke =
      ((c.routeKey event (c.route event v)).map fun key => (key, isPress event)).toList := by
  unfold translateKeyboardMode route
  by_cases hdead : c.isDead event v
  · rw [if_pos hdead, if_pos hdead]
    rfl
  · rw [if_neg hdead, if_neg hdead]
    by_cases hpad : c.targetOs ≠ .mobile ∧ isNumpadKey event
    · rw [if_pos hpad, if_pos hpad]
      exact mapKeyboardMode_strokes hkey
    · rw [if_neg hpad, if_neg hpad]
      cases c.targetOs with
      | windows => exact translateOnWindows_strokes hkey
      | macos => exact translateOnMacos_strokes hkey
      | linux => exact translateOnLinux_strokes hkey
      | mobile => exact mapKeyboardMode_strokes hkey

theorem legacyEvent_stroke (s : KeyboardState) (event : Event) (v : KeyState) (ctrl : Bool)
    (mode : KeyboardMode) (union : KeyUnion) :
    (legacyEvent s event v ctrl { mode, union := some union }).stroke =
      union.remoteKey.map fun key => (key, isPress event) := by
  simp [legacyEvent, legacyModifiers, KeyEvent.stroke]

theorem legacyTranslate_strokes (s : KeyboardState) (mode : KeyboardMode) {key : Key} {ctrl : Bool}
    (hcommand : ¬c.SendsCommand key ctrl event v) :
    ((c.legacyTranslate s key ctrl event v { mode }).2.1 ++
      (c.legacyTranslate s key ctrl event v { mode }).2.2).filterMap KeyEvent.stroke =
      ((c.legacyRemoteKey key event).map fun key => (key, isPress event)).toList := by
  have hdelete : ¬(key = .delete ∧ c.isWin ∧ ctrl ∧ v.alt) := fun h =>
    hcommand ⟨h.2.1, .inl ⟨h.1, h.2.2⟩⟩
  unfold legacyTranslate legacyRemoteKey
  rw [if_neg hdelete]
  by_cases hextra : c.targetOs = .windows ∧ key = .controlLeft ∧ event.positionCode / 2 ^ 8 = 0xE0
  · simp only [if_pos hextra]
    rfl
  · simp only [if_neg hextra]
    by_cases hlocks : key ∈ [Key.capsLock, .numLock, .scrollLock]
    · simp only [if_pos hlocks]
      rfl
    · simp only [if_neg hlocks]
      cases hcontrol : controlKeyOf key with
      | some k => simp [legacyEvent_stroke, KeyUnion.remoteKey]
      | none =>
        have hlock : ¬(legacyChr key event = 'l' ∧ c.isWin ∧ v.command) := fun h =>
          hcommand ⟨h.2.1, .inr ⟨hcontrol, hlocks, h.1, h.2.2⟩⟩
        by_cases hchr : legacyChr key event = Char.ofNat 0
        · simp only [if_pos hchr]
          rfl
        · simp only [if_neg hchr, if_neg hlock]
          simp [legacyEvent_stroke, KeyUnion.remoteKey]

/-- What the legacy mode sends for an event that is no command. -/
theorem legacyKeyboardMode_strokes (s : KeyboardState) {call : Call}
    (hmode : c.keyboardMode = .legacy) (hcommand : ¬c.IsCommand s.isAltGr call)
    (hkey : call.event.key ≠ none) :
    ((c.legacyKeyboardMode s call.event call.state { mode := .legacy }).2.1 ++
      (c.legacyKeyboardMode s call.event call.state { mode := .legacy }).2.2).filterMap
        KeyEvent.stroke =
      ((c.remoteKey call.event call.state).map fun key => (key, isPress call.event)).toList := by
  obtain ⟨key, hkey⟩ := Option.ne_none_iff_exists'.mp hkey
  have hlegacy : c.remoteKey call.event call.state =
      if c.targetOs = .mobile then none
      else c.legacyRemoteKey (c.legacyKey key call.state) call.event := by
    simp [remoteKey, hkey, hmode]
  rw [hlegacy]
  unfold legacyKeyboardMode
  by_cases hmobile : c.targetOs = .mobile
  · simp only [if_pos hmobile]
    rfl
  · simp only [if_neg hmobile, hkey]
    exact legacyTranslate_strokes _ _ fun h => hcommand ⟨hmode, hmobile, key, hkey, h⟩

theorem addLockModes_strokes (c : Setup) (event : Event) (lockModes : Option (BitVec 32))
    (v : KeyState) (keyEvents : List KeyEvent) :
    (c.addLockModes event lockModes v keyEvents).filterMap KeyEvent.stroke =
      keyEvents.filterMap KeyEvent.stroke := by
  unfold addLockModes
  split_ifs
  · rw [List.filterMap_map]
    rfl
  · rfl

theorem update_isAltGr (s : KeyboardState) (event : Event) :
    (updateToRelease (updateModifiersState s event) event).isAltGr = s.isAltGr := by
  unfold updateToRelease updateModifiersState
  cases event.eventType <;> rfl

/-- An event that is no command presses or releases the remote key that it stands for. -/
theorem eventToKeyEvents_strokes (s : KeyboardState) {call : Call}
    (hcommand : ¬c.IsCommand s.isAltGr call) (hkey : call.event.key ≠ none) :
    (c.eventToKeyEvents s call.event call.lockModes call.state).2.filterMap KeyEvent.stroke =
      ((c.remoteKey call.event call.state).map fun key => (key, isPress call.event)).toList := by
  obtain ⟨key, hsome⟩ := Option.ne_none_iff_exists'.mp hkey
  cases hmode : c.keyboardMode with
  | map =>
    have hremote : c.remoteKey call.event call.state = (c.keycode call.event).map .chr := by
      simp [remoteKey, hsome, hmode]
    simp only [eventToKeyEvents, hmode, List.nil_append, addLockModes_strokes]
    rw [mapKeyboardMode_strokes hkey, hremote]
  | translate =>
    have hremote : c.remoteKey call.event call.state =
        c.routeKey call.event (c.route call.event call.state) := by
      simp [remoteKey, hsome, hmode]
    simp only [eventToKeyEvents, hmode, List.nil_append, addLockModes_strokes]
    rw [translateKeyboardMode_strokes hkey, hremote]
  | legacy =>
    rw [← update_isAltGr s call.event] at hcommand
    have hlegacy := legacyKeyboardMode_strokes _ hmode hcommand hkey
    simp only [eventToKeyEvents, hmode, List.filterMap_append, addLockModes_strokes]
    rw [← List.filterMap_append]
    exact hlegacy

/-! ## Presses and their releases -/

/-- The inputs that decide about the remote key are the same, as far as the press has one. -/
def Agrees (press release : Call) : Prop :=
  match c.keyboardMode with
  | .map =>
    c.keycode press.event = none ∨ c.keycode press.event = c.keycode release.event
  | .translate =>
    match c.route press.event press.state with
    | .dropped | .text => True
    | .hotkey => c.route release.event release.state = .hotkey ∧
        press.event.platformCode % 2 ^ 16 = release.event.platformCode % 2 ^ 16
    | .keycode => c.keycode press.event = none ∨
        c.route release.event release.state = .keycode ∧
          c.keycode press.event = c.keycode release.event
  | .legacy => c.targetOs ≠ .mobile → ∀ key ∈ press.event.key,
      key ∉ [.capsLock, .numLock, .scrollLock] →
      (c.isWin → unlockedNumpadKey key ≠ key → press.state.numLock = release.state.numLock) ∧
      (controlKeyOf key = none → legacyChr key press.event ≠ Char.ofNat 0 →
        legacyChr key press.event = legacyChr key release.event) ∧
      (c.targetOs = .windows → key = .controlLeft → press.event.positionCode / 2 ^ 8 ≠ 0xE0 →
        release.event.positionCode / 2 ^ 8 ≠ 0xE0)

variable {key : Key}

/-- A key of the numeric pad is one control key with the lock, and another without. -/
theorem controlKeyOf_numpad (h : unlockedNumpadKey key ≠ key) :
    (∃ k k', controlKeyOf key = some k ∧ controlKeyOf (unlockedNumpadKey key) = some k' ∧ k ≠ k') ∧
      ∀ k ∈ [key, unlockedNumpadKey key], k ≠ .controlLeft ∧
        k ∉ [Key.capsLock, .numLock, .scrollLock] := by
  cases key <;> first
    | exact absurd rfl h
    | exact ⟨⟨_, _, rfl, rfl, by decide⟩, forall_mem_of_all (by decide)⟩

theorem legacyKey_cases (c : Setup) (key : Key) (v : KeyState) :
    c.legacyKey key v = if c.isWin ∧ ¬v.numLock then unlockedNumpadKey key else key := by
  unfold legacyKey convertNumpadKeys
  cases c.isWin <;> cases v.numLock <;> simp

theorem legacyRemoteKey_control {k : ControlKey} (hcontrol : controlKeyOf key = some k)
    (hleft : key ≠ .controlLeft) (hlocks : key ∉ [Key.capsLock, .numLock, .scrollLock])
    (c : Setup) (event : Event) : c.legacyRemoteKey key event = some (.controlKey k) := by
  unfold legacyRemoteKey
  rw [if_neg fun h => hleft h.2.1, if_neg hlocks, hcontrol]

/-- What the legacy mode makes of two events of one key. -/
theorem legacyRemoteKey_agrees (key : Key) (event event' : Event) :
    (∀ r, c.legacyRemoteKey key event = some r → c.legacyRemoteKey key event' = some r) ↔
      (key ∉ [Key.capsLock, .numLock, .scrollLock] →
        (controlKeyOf key = none → legacyChr key event ≠ Char.ofNat 0 →
          legacyChr key event = legacyChr key event') ∧
        (c.targetOs = .windows → key = .controlLeft → event.positionCode / 2 ^ 8 ≠ 0xE0 →
          event'.positionCode / 2 ^ 8 ≠ 0xE0)) := by
  by_cases hextra : c.targetOs = .windows ∧ key = .controlLeft
  · obtain ⟨hwindows, rfl⟩ := hextra
    have hcontrol : controlKeyOf .controlLeft = some .control := rfl
    have hleft (event : Event) : c.legacyRemoteKey .controlLeft event =
        if event.positionCode / 2 ^ 8 = 0xE0 then none else some (.controlKey .control) := by
      simp [legacyRemoteKey, hwindows, hcontrol]
    rw [hleft, hleft]
    generalize event.positionCode / 2 ^ 8 = code
    generalize event'.positionCode / 2 ^ 8 = code'
    by_cases h : code = 0xE0
    · simp [h, hcontrol]
    · by_cases h' : code' = 0xE0
      · simp [h, h', hwindows, hcontrol]
      · simp [h, h', hcontrol]
  · have hleft (event : Event) : ¬(c.targetOs = .windows ∧ key = .controlLeft ∧
        event.positionCode / 2 ^ 8 = 0xE0) := fun h => hextra ⟨h.1, h.2.1⟩
    unfold legacyRemoteKey
    rw [if_neg (hleft event), if_neg (hleft event')]
    by_cases hlocks : key ∈ [Key.capsLock, .numLock, .scrollLock]
    · simp [hlocks]
    · rw [if_neg hlocks, if_neg hlocks]
      have hnoLeft : (c.targetOs = .windows → key = .controlLeft →
          event.positionCode / 2 ^ 8 ≠ 0xE0 → event'.positionCode / 2 ^ 8 ≠ 0xE0) :=
        fun hwindows hkey => absurd ⟨hwindows, hkey⟩ hextra
      simp only [hlocks, not_false_iff, forall_const, iff_true_intro hnoLeft, and_true]
      cases hcontrol : controlKeyOf key with
      | some k => simp
      | none =>
        have hinj : (legacyChr key event').toNat = (legacyChr key event).toNat ↔
            legacyChr key event = legacyChr key event' := by
          rw [Char.toNat_inj, eq_comm]
        by_cases h : legacyChr key event = Char.ofNat 0
        · simp [h]
        · by_cases h' : legacyChr key event' = Char.ofNat 0
          · have hne : legacyChr key event ≠ legacyChr key event' := h' ▸ h
            simp [h, h']
          · simp [h, h', hinj]

/-- One value is mapped to what another is mapped to only if they are the same. -/
theorem forall_map_eq_some {α β : Type} {f : α → β} (hf : Function.Injective f) (x y : Option α) :
    (∀ r, x.map f = some r → y.map f = some r) ↔ x = none ∨ x = y := by
  cases x with
  | none => simp
  | some a =>
    cases y with
    | none => simp
    | some b => simp [hf.eq_iff, eq_comm]

theorem chr_injective : Function.Injective RemoteKey.chr := fun _ _ h => RemoteKey.chr.inj h

theorem agrees_iff {press release : Call} (hpress : press.event.key = some key)
    (hrelease : release.event.key = some key) : c.Agrees press release ↔
      ∀ r, c.remoteKey press.event press.state = some r →
        c.remoteKey release.event release.state = some r := by
  cases hmode : c.keyboardMode with
  | map =>
    simp only [Agrees, remoteKey, hmode, hpress, hrelease, Option.bind_some]
    exact (forall_map_eq_some chr_injective _ _).symm
  | translate =>
    simp only [Agrees, remoteKey, hmode, hpress, hrelease, Option.bind_some]
    cases c.route press.event press.state with
    | dropped => simp [routeKey]
    | text => simp [routeKey]
    | hotkey =>
      cases c.route release.event release.state with
      | hotkey => simp [routeKey, eq_comm]
      | _ => simp [routeKey]
    | keycode =>
      cases c.route release.event release.state with
      | keycode =>
        simp only [routeKey, true_and]
        exact (forall_map_eq_some chr_injective _ _).symm
      | _ => cases hcode : c.keycode press.event <;> simp [routeKey, hcode]
  | legacy =>
    simp only [Agrees, remoteKey, hmode, hpress, hrelease, Option.bind_some]
    by_cases hmobile : c.targetOs = .mobile
    · simp [hmobile]
    · simp only [hmobile, if_false, ne_eq, not_false_iff, forall_const, Option.mem_def,
        Option.some_inj, forall_eq']
      rw [legacyKey_cases, legacyKey_cases]
      by_cases hpad : unlockedNumpadKey key = key
      · -- the lock does not matter to the key
        simp only [hpad, ite_self]
        rw [legacyRemoteKey_agrees]
        simp
      · obtain ⟨⟨k, k', hk, hk', hne⟩, hplain⟩ := controlKeyOf_numpad hpad
        obtain ⟨hleft, hlocks⟩ := hplain key List.mem_cons_self
        obtain ⟨hleft', hlocks'⟩ := hplain (unlockedNumpadKey key) (by simp)
        have hlocked := legacyRemoteKey_control hk hleft hlocks c
        have hunlocked := legacyRemoteKey_control hk' hleft' hlocks' c
        cases c.isWin <;> cases press.state.numLock <;> cases release.state.numLock <;>
          simp [hlocked, hunlocked, hk, hleft, hpad, hlocks, hne, hne.symm]

end Setup

/-! ## Runs -/

/-- The client, and the presses whose keys have not been released. -/
structure Watched where
  client : Client := {}
  pending : List Call := []

def Watched.clearToRelease (s : Watched) : Watched := { s with client := s.client.clearToRelease }

namespace Setup

variable (c : Setup) (s : Watched) (call : Call)

def watch : Watched where
  client := c.processEvent s.client call
  pending :=
    if isLongPress s.client.keyboard call.event then s.pending
    else
      match call.event.eventType with
      | .keyPress _ => call :: s.pending
      | .keyRelease key => s.pending.filter fun press => press.event.key ≠ some key
      | .other => s.pending

/-- An event of a key that is no command. A release agrees with the presses of its key. -/
def Steady : Prop :=
  isLongPress s.client.keyboard call.event = true ∨
    call.event.key ≠ none ∧ ¬c.IsCommand s.client.keyboard.isAltGr call ∧
      ∀ key, call.event.eventType = .keyRelease key →
        ∀ press ∈ s.pending, press.event.key = some key → c.Agrees press call

/-- What is down has been pressed and not released. -/
def Owed : Prop :=
  ∀ r, leftDown s.client.sent r = true →
    ∃ press ∈ s.pending, c.remoteKey press.event press.state = some r

variable {c s call}

theorem processEvent_eq {s : Client} (h : isLongPress s.keyboard call.event = false) :
    c.processEvent s call =
      { keyboard := (c.eventToKeyEvents s.keyboard call.event call.lockModes call.state).1
        sent := s.sent ++
          (c.eventToKeyEvents s.keyboard call.event call.lockModes call.state).2 } := by
  rw [processEvent, if_neg (by simp [h])]

/-- What an event adds to the strokes. -/
theorem processEvent_strokes (s : Client) {call : Call}
    (hcommand : ¬c.IsCommand s.keyboard.isAltGr call) (hkey : call.event.key ≠ none)
    (hlong : isLongPress s.keyboard call.event = false) :
    (c.processEvent s call).sent.filterMap KeyEvent.stroke =
      s.sent.filterMap KeyEvent.stroke ++
        ((c.remoteKey call.event call.state).map fun key => (key, isPress call.event)).toList := by
  rw [processEvent_eq hlong, List.filterMap_append, eventToKeyEvents_strokes _ hcommand hkey]

theorem Owed.watch (h : c.Owed s) (hsteady : c.Steady s call) : c.Owed (c.watch s call) := by
  cases hlong : isLongPress s.client.keyboard call.event with
  | true =>
    have hsame : c.watch s call = s := by simp [Setup.watch, processEvent, hlong]
    rw [hsame]
    exact h
  | false =>
    obtain ⟨hkey, hcommand, hagrees⟩ := hsteady.resolve_left (by simp [hlong])
    have hstrokes := processEvent_strokes s.client hcommand hkey hlong
    intro r hr
    rw [leftDown, Setup.watch, hstrokes] at hr
    have hpending : (c.watch s call).pending =
        match call.event.eventType with
        | .keyPress _ => call :: s.pending
        | .keyRelease key => s.pending.filter fun press => press.event.key ≠ some key
        | .other => s.pending := by
      simp only [Setup.watch, hlong, Bool.false_eq_true, if_false]
    rw [hpending]
    cases htype : call.event.eventType with
    | keyPress key =>
      rcases held_append hr with ⟨hbefore, -⟩ | hpress
      · obtain ⟨press, hmem, hremote⟩ := h r hbefore
        exact ⟨press, List.mem_cons_of_mem _ hmem, hremote⟩
      · refine ⟨call, List.mem_cons_self, ?_⟩
        simp at hpress
        exact hpress.1
    | keyRelease key =>
      have hrelease : isPress call.event = false := by simp [isPress, htype]
      have hcallKey : call.event.key = some key := by simp [Event.key, htype]
      rcases held_append hr with ⟨hbefore, hnone⟩ | hpress
      · obtain ⟨press, hmem, hremote⟩ := h r hbefore
        refine ⟨press, List.mem_filter.mpr ⟨hmem, ?_⟩, hremote⟩
        rw [decide_eq_true_iff]
        intro hsame
        have hagree := (agrees_iff hsame hcallKey).mp (hagrees key htype press hmem hsame) r hremote
        simp [hagree, hrelease] at hnone
      · simp [hrelease] at hpress
    | other => simp [Event.key, htype] at hkey

/-- The run of the client. -/
theorem run_watch_client (calls : List Call) :
    (run c.watch s calls).client = run c.processEvent s.client calls := by
  induction calls generalizing s with
  | nil => rfl
  | cons call calls ih => exact ih

theorem legacyTranslate_toRelease (s : KeyboardState) (key : Key) (ctrl : Bool) (event : Event)
    (v : KeyState) (e : KeyEvent) :
    (c.legacyTranslate s key ctrl event v e).1.toRelease = s.toRelease := by
  unfold legacyTranslate
  cases controlKeyOf key with
  | none => split_ifs <;> rfl
  | some k => split_ifs <;> rfl

theorem legacyKeyboardMode_toRelease (s : KeyboardState) (event : Event) (v : KeyState)
    (e : KeyEvent) : (c.legacyKeyboardMode s event v e).1.toRelease = s.toRelease := by
  unfold legacyKeyboardMode
  split_ifs
  · rfl
  · split
    · rfl
    · rw [legacyTranslate_toRelease]

/-- The keys to be released are those that the events leave pressed. -/
theorem eventToKeyEvents_toRelease (s : KeyboardState) (event : Event)
    (lockModes : Option (BitVec 32)) (v : KeyState) :
    (c.eventToKeyEvents s event lockModes v).1.toRelease =
      match event.eventType with
      | .keyPress key => s.toRelease.insert key event
      | .keyRelease key => s.toRelease.remove key
      | .other => s.toRelease := by
  have hupdate : (updateToRelease (updateModifiersState s event) event).toRelease =
      match event.eventType with
      | .keyPress key => s.toRelease.insert key event
      | .keyRelease key => s.toRelease.remove key
      | .other => s.toRelease := by
    unfold updateToRelease updateModifiersState
    cases event.eventType <;> rfl
  rw [← hupdate]
  cases hmode : c.keyboardMode with
  | map => simp only [eventToKeyEvents, hmode]
  | translate => simp only [eventToKeyEvents, hmode]
  | legacy => simp only [eventToKeyEvents, hmode, legacyKeyboardMode_toRelease]

variable (s) in
/-- The keys of the presses that are pending are to be released. -/
def Listed : Prop :=
  ∀ press ∈ s.pending, ∃ key, press.event.key = some key ∧
    s.client.keyboard.toRelease.get key ≠ none

theorem Listed.watch (h : Listed s) (c : Setup) (call : Call) : Listed (c.watch s call) := by
  cases hlong : isLongPress s.client.keyboard call.event with
  | true =>
    have hsame : c.watch s call = s := by simp [Setup.watch, processEvent, hlong]
    rw [hsame]
    exact h
  | false =>
    intro press hpress
    simp only [Setup.watch, hlong, Bool.false_eq_true, if_false] at hpress
    have htable : (c.watch s call).client.keyboard.toRelease = _ :=
      (congrArg (fun client => client.keyboard.toRelease) (processEvent_eq hlong)).trans
        (eventToKeyEvents_toRelease s.client.keyboard call.event call.lockModes call.state)
    rw [htable]
    cases htype : call.event.eventType with
    | keyPress key =>
      rw [htype] at hpress
      dsimp only at hpress ⊢
      rcases List.mem_cons.mp hpress with rfl | hpress
      · exact ⟨key, by simp [Event.key, htype], by simp⟩
      · obtain ⟨key', hkey', hlisted⟩ := h press hpress
        refine ⟨key', hkey', ?_⟩
        rw [Table.get_insert]
        split_ifs
        · simp
        · exact hlisted
    | keyRelease key =>
      rw [htype] at hpress
      dsimp only at hpress ⊢
      obtain ⟨hmem, hother⟩ := List.mem_filter.mp hpress
      obtain ⟨key', hkey', hlisted⟩ := h press hmem
      have hne : key' ≠ key := by
        rintro rfl
        simp [hkey'] at hother
      refine ⟨key', hkey', ?_⟩
      rw [Table.get_remove, if_neg hne]
      exact hlisted
    | other =>
      rw [htype] at hpress
      exact h press hpress

/-- The release of a key leaves no press of it pending. -/
theorem watch_release_pending {key : Key} (htype : call.event.eventType = .keyRelease key) :
    (c.watch s call).pending = s.pending.filter fun press => press.event.key ≠ some key := by
  simp [Setup.watch, isLongPress, htype]

theorem releaseKey_pending (key : Key) (event : Event) (later : Nat → KeyState) {press : Call}
    (hpress : press ∈ (run c.watch s (releaseKey key event later)).pending) :
    press ∈ s.pending ∧ press.event.key ≠ some key := by
  have hrelease {s : Watched} {call : Call} (htype : call.event.eventType = .keyRelease key)
      (hmem : press ∈ (c.watch s call).pending) :
      press ∈ s.pending ∧ press.event.key ≠ some key := by
    rw [watch_release_pending htype, List.mem_filter] at hmem
    exact ⟨hmem.1, by simpa using hmem.2⟩
  have hpressed {s : Watched} {call : Call} (htype : call.event.eventType = .keyPress key)
      (hmem : press ∈ (c.watch s call).pending) : press = call ∨ press ∈ s.pending := by
    simp only [Setup.watch, htype] at hmem
    split_ifs at hmem
    · exact .inr hmem
    · exact List.mem_cons.mp hmem
  by_cases htwice : key = .alt ∨ key = .altGr
  · simp only [releaseKey, if_pos htwice, run_cons, run_nil] at hpress
    obtain ⟨hmem, hother⟩ := hrelease rfl hpress
    rcases hpressed rfl hmem with rfl | hmem
    · exact absurd rfl hother
    · exact hrelease rfl hmem
  · simp only [releaseKey, if_neg htwice, run_cons, run_nil] at hpress
    exact hrelease rfl hpress

theorem releaseCalls_cons (e : Sigma fun _ : Key => Event)
    (entries : List (Sigma fun _ : Key => Event)) (later : Key → Nat → KeyState) :
    releaseCalls (e :: entries) later =
      releaseKey e.1 e.2 (later e.1) ++ releaseCalls entries later := rfl

theorem releaseCalls_pending (entries : List (Sigma fun _ : Key => Event))
    (later : Key → Nat → KeyState) {press : Call}
    (hpress : press ∈ (run c.watch s (releaseCalls entries later)).pending) :
    press ∈ s.pending ∧ ∀ e ∈ entries, press.event.key ≠ some e.1 := by
  induction entries generalizing s with
  | nil => exact ⟨hpress, fun e he => absurd he List.not_mem_nil⟩
  | cons e entries ih =>
    rw [releaseCalls_cons, run_append] at hpress
    obtain ⟨hmem, hrest⟩ := ih hpress
    obtain ⟨hmem, hfirst⟩ := releaseKey_pending e.1 e.2 (later e.1) hmem
    refine ⟨hmem, fun e' he' => ?_⟩
    rcases List.mem_cons.mp he' with rfl | he'
    · exact hfirst
    · exact hrest e' he'

/-- A press and its release alone leave nothing down if and only if they agree. -/
theorem pair_leftDown_iff (c : Setup) {key : Key} {press release : Call}
    (hpress : press.event.eventType = .keyPress key)
    (hrelease : release.event.eventType = .keyRelease key)
    (hcommand : ¬c.IsCommand false press)
    (hcommand' : ¬c.IsCommand (c.processEvent {} press).keyboard.isAltGr release) :
    (∀ r, leftDown (run c.processEvent {} [press, release]).sent r = false) ↔
      c.Agrees press release := by
  have hkey : press.event.key = some key := by simp [Event.key, hpress]
  have hkey' : release.event.key = some key := by simp [Event.key, hrelease]
  have hdown : isPress press.event = true := by simp [isPress, hpress]
  have hup : isPress release.event = false := by simp [isPress, hrelease]
  have hfirst := processEvent_strokes {} hcommand (by simp [hkey]) (by simp [isLongPress, hpress])
  have hsecond := processEvent_strokes (c.processEvent {} press) hcommand' (by simp [hkey'])
    (by simp [isLongPress, hrelease])
  have hsent (r : RemoteKey) : leftDown (run c.processEvent {} [press, release]).sent r =
      held (((c.remoteKey press.event press.state).map fun key => (key, true)).toList ++
        ((c.remoteKey release.event release.state).map fun key => (key, false)).toList) r := by
    rw [leftDown, run_cons, run_cons, run_nil, hsecond, hfirst, hdown, hup]
    rfl
  rw [agrees_iff hkey hkey']
  simp only [hsent]
  cases c.remoteKey press.event press.state with
  | none => cases c.remoteKey release.event release.state <;> simp [held]
  | some r₀ =>
    cases c.remoteKey release.event release.state with
    | none => simp [held, Function.update_apply]
    | some r₁ =>
      simp only [Option.map_some, Option.toList_some, List.cons_append, List.nil_append]
      constructor
      · intro hup r hr
        obtain rfl := Option.some.inj hr
        have hr₀ := hup r₀
        simp [held, Function.update_apply] at hr₀
        rw [hr₀]
      · intro hagree r
        obtain rfl := Option.some.inj (hagree r₀ rfl)
        simp only [held, List.foldl_cons, List.foldl_nil, Function.update_apply]
        split_ifs <;> rfl

/-- Where the releases agree with the presses of their keys, all that has been pressed is released
in the end. -/
theorem releaseRemoteKeys_leftDown (c : Setup) (history : List Call)
    (entries : List (Sigma fun _ : Key => Event)) (later : Key → Nat → KeyState)
    (hentries : entries.Perm (run c.processEvent {} history).keyboard.toRelease.entries)
    (hhistory : Allowed c.watch c.Steady {} history)
    (hrelease : Allowed c.watch c.Steady (run c.watch {} history).clearToRelease
      (releaseCalls entries later)) (r : RemoteKey) :
    leftDown (c.releaseRemoteKeys (run c.processEvent {} history) entries later).sent r =
      false := by
  have hkeeps {s : Watched} {calls : List Call} (hs : c.Owed s)
      (hcalls : Allowed c.watch c.Steady s calls) : c.Owed (run c.watch s calls) :=
    run_keeps (fun _ _ h hsteady => h.watch hsteady) hs hcalls
  have howed : c.Owed (run c.watch {} history) :=
    hkeeps (fun r hr => by simp [leftDown] at hr) hhistory
  have hlisted : Listed (run c.watch {} history) := by
    have hall : Allowed c.watch (fun _ _ => True) {} history :=
      allowed_of_forall (fun _ _ => trivial) _ history
    exact run_keeps (fun s call h _ => h.watch c call) (List.forall_mem_nil _) hall
  have hfinal := hkeeps (s := (run c.watch {} history).clearToRelease) howed hrelease
  have hclient : (run c.watch (run c.watch {} history).clearToRelease
      (releaseCalls entries later)).client =
        c.releaseRemoteKeys (run c.processEvent {} history) entries later := by
    rw [run_watch_client, Watched.clearToRelease, run_watch_client, releaseRemoteKeys]
  by_contra hdown
  rw [Bool.not_eq_false, ← hclient] at hdown
  obtain ⟨press, hpress, -⟩ := hfinal r hdown
  obtain ⟨hmem, hnone⟩ := releaseCalls_pending entries later hpress
  obtain ⟨key, hkey, hget⟩ := hlisted press hmem
  rw [run_watch_client] at hget
  obtain ⟨event, hevent⟩ := Option.ne_none_iff_exists'.mp hget
  exact hnone ⟨key, event⟩ (hentries.mem_iff.mpr (Table.get_eq_some_iff.mp hevent)) hkey

/-- The shift key is held for a capital. -/
def shifted : List Call :=
  [{ event := { eventType := .keyPress .shiftLeft } },
    { event := { eventType := .keyPress .keyA, unicode := some { name := some ['A'] } } },
    { event := { eventType := .keyRelease .keyA, unicode := some { name := some ['A'] } } }]

/-- A Linux client in the legacy mode, with a peer of the same kind. -/
def legacyLinux : Setup where
  targetOs := .linux
  keyboardMode := .legacy
  peerPlatform := "Linux"
  toLowercase := id
  codes := {}

theorem shifted_leftDown :
    leftDown (run legacyLinux.processEvent {} shifted).sent (.controlKey .shift) = true ∧
      ∀ r, leftDown (legacyLinux.releaseRemoteKeys (run legacyLinux.processEvent {} shifted)
        [⟨.shiftLeft, { eventType := .keyPress .shiftLeft }⟩] fun _ _ => {}).sent r = false := by
  have hagree {press call : Call} {key : Key} (hkey : press.event.key = some key)
      (hchr : legacyChr key press.event = legacyChr key call.event) :
      legacyLinux.Agrees press call := by
    intro _ key' hkey' _
    obtain rfl := Option.some.inj (hkey.symm.trans hkey')
    refine ⟨fun hwin => absurd hwin (by decide), fun _ _ => hchr, fun hos => absurd hos (by decide)⟩
  have hcommand (isAltGr : Bool) (call : Call) : ¬legacyLinux.IsCommand isAltGr call :=
    fun ⟨_, _, _, _, hwin, _⟩ => absurd hwin (by decide)
  refine ⟨by decide, releaseRemoteKeys_leftDown legacyLinux shifted _ _ (by decide) ?_ ?_⟩
  · refine ⟨.inr ⟨by decide, hcommand _ _, nofun⟩, .inr ⟨by decide, hcommand _ _, nofun⟩,
      .inr ⟨by decide, hcommand _ _, ?_⟩, trivial⟩
    intro key hkey press hpress hpressed
    obtain rfl : .keyA = key := EventType.keyRelease.inj hkey
    rcases List.mem_pair.mp hpress with rfl | rfl
    · exact hagree hpressed rfl
    · exact absurd hpressed (by decide)
  · refine ⟨.inr ⟨by decide, hcommand _ _, ?_⟩, trivial⟩
    intro key hkey press hpress hpressed
    obtain rfl : .shiftLeft = key := EventType.keyRelease.inj hkey
    obtain rfl := List.mem_singleton.mp hpress
    exact hagree hpressed rfl

/-- The capital is pressed with the shift key, and the small letter released without it. -/
def capital : List Call :=
  [{ event := { eventType := .keyPress .keyA, unicode := some { name := some ['A'] } } },
    { event := { eventType := .keyRelease .keyA, unicode := some { name := some ['a'] } } }]

theorem capital_leftDown :
    [] = (run legacyLinux.processEvent {} capital).keyboard.toRelease.entries ∧
      leftDown (legacyLinux.releaseRemoteKeys (run legacyLinux.processEvent {} capital) []
        fun _ _ => {}).sent (.chr 65) = true := by
  decide

end Setup

end Keyboard

end MDesk
