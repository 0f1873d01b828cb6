import MDesk.Server.OptionScope
import MDesk.Server.Subscriptions

/-!
# What the connections of a host hear

A connection is subscribed to the services of its host by its login, by the options of its peer
and by the permissions that are switched at the host. The messages of a connection come one
after another, and those of several connections in any order; between two of them the threads
of the services run.
-/

namespace MDesk.HostServices

open Core
open HostLogin (AuthConnType)
open OptionScope (OptionMessage BoolOption Message Misc scopedLoginOption scopedViewCameraOption
  scopedTerminalLoginOption scopedViewCameraFields scopedTerminalFields
  authorizedMessageScopeViolation)

variable {μ : Type*}

/-! ## Names -/

/-- `audio_service::NAME`. -/
def audioService : List Char := "audio".toList

/-- `display_service::NAME`. -/
def displayService : List Char := "display".toList

/-- `clipboard_service::NAME`. -/
def clipboardService : List Char := "clipboard".toList

def nameCursor : List Char := "mouse_cursor".toList

def namePos : List Char := "mouse_pos".toList

def nameWindowFocus : List Char := "window_focus".toList

/-- `printer_service::NAME`. -/
def printerService : List Char := "remote-printer".toList

/-- What a service is about, by its name. -/
inductive Topic where
  | audio
  | clipboard
  | cursor
  | pos
  | windowFocus
  | monitor
  | camera
  | other
  deriving DecidableEq, Repr

def topic (name : List Char) : Topic :=
  if name = audioService then .audio
  else if name = clipboardService then .clipboard
  else if name = nameCursor then .cursor
  else if name = namePos then .pos
  else if name = nameWindowFocus then .windowFocus
  else if VideoSource.monitor.serviceNamePrefix.isPrefixOf name then .monitor
  else if VideoSource.camera.serviceNamePrefix.isPrefixOf name then .camera
  else .other

/-- The services whose threads send a snapshot first. -/
def needsSnapshot (name : List Char) : Bool :=
  name == audioService || name == displayService || name == nameCursor || isVideoServiceName name

/-- `server::new` on Windows: without the services of a cursor that is in the picture, and with
the printer where there is one. -/
def newServer (cursorEmbedded printer : Bool) : Server μ :=
  let s : Server μ := (({} : Server μ).addService audioService true).addService displayService true
  let s := s.addService clipboardService false
  let s :=
    if cursorEmbedded then s
    else
      ((s.addService nameCursor true).addService namePos false).addService nameWindowFocus false
  if printer then s.addService printerService false else s

/-! ## A connection -/

/-- `PRIMARY_DISPLAY_IDX`, and whether texts are copied to the host only. -/
structure Settings where
  primaryDisplay : Nat
  oneWayClipboard : Bool

/-- `camera::PRIMARY_CAMERA_IDX`. -/
def primaryCamera : Nat := 0

/-- A connection, as far as its services go, and whether a permission of it has been switched. -/
structure Peer where
  keyboard : Bool
  clipboard : Bool
  audio : Bool
  displayIdx : Nat
  showRemoteCursor : Bool := false
  followRemoteWindow : Bool := false
  disableAudio : Bool := false
  disableClipboard : Bool := false
  disableKeyboard : Bool := false
  authedConnType : Option AuthConnType := none
  /-- `is_support_multi_ui_session` of the version of the peer. -/
  supportMultiUi : Bool := false
  servicesSubed : Bool := false
  multiUiSession : Bool := false
  voiceCallRequested : Bool := false
  voiceCalling : Bool := false
  switched : Bool := false
  deriving DecidableEq, Repr

namespace Peer

variable (st : Settings) (p : Peer)

def peerKeyboardEnabled : Bool := p.keyboard && !p.disableKeyboard

def clipboardEnabled : Bool := p.clipboard && !p.disableClipboard

def canSubClipboardService : Bool :=
  p.clipboardEnabled && p.peerKeyboardEnabled && !st.oneWayClipboard

def audioEnabled : Bool := p.audio && !p.disableAudio

def videoSource : VideoSource :=
  if p.authedConnType = some .viewCamera then .camera else .monitor

/-- A message of the peer that is acted on: the connection is authorized, and the message is in
its scope. -/
def accepts (msg : Message) : Bool :=
  p.authedConnType.any fun type => (authorizedMessageScopeViolation true type msg).isNone

end Peer

/-- What the threads of the services do while `is_subed` looks at them. -/
abbrev Between (μ : Type*) := List Char → List (ThreadStep μ)

/-- A change of a connection and of the services of its host. -/
abbrev Handler (μ : Type*) := Server μ × Peer → Server μ × Peer

section Handlers

variable (st : Settings) (c : Int)

/-- A few requests, one after another. -/
def resubscribe (between : Between μ) (wants : List (List Char × Bool)) (s : Server μ) : Server μ :=
  wants.foldl (fun s e => s.subscribe e.1 c e.2 between) s

def setShowRemoteCursor (between : Between μ) (on : Bool) : Handler μ := fun (s, p) =>
  let p := { p with showRemoteCursor := on }
  (resubscribe c between
    [(nameCursor, p.peerKeyboardEnabled || p.showRemoteCursor), (namePos, p.showRemoteCursor)] s, p)

def setFollowRemoteWindow (between : Between μ) (on : Bool) : Handler μ := fun (s, p) =>
  let p := { p with followRemoteWindow := on }
  (resubscribe c between [(nameWindowFocus, p.followRemoteWindow)] s, p)

/-- A camera is heard only in a call. -/
def subscribeAudio (between : Between μ) : Handler μ := fun (s, p) =>
  if p.authedConnType = some .viewCamera then
    if p.voiceCalling || !p.audioEnabled then
      (resubscribe c between [(audioService, p.audioEnabled)] s, p)
    else (s, p)
  else (resubscribe c between [(audioService, p.audioEnabled)] s, p)

def setDisableAudio (between : Between μ) (on : Bool) : Handler μ := fun (s, p) =>
  subscribeAudio c between (s, { p with disableAudio := on })

def setDisableClipboard (between : Between μ) (on : Bool) : Handler μ := fun (s, p) =>
  let p := { p with disableClipboard := on }
  (resubscribe c between [(clipboardService, p.canSubClipboardService st)] s, p)

def setDisableKeyboard (between : Between μ) (on : Bool) : Handler μ := fun (s, p) =>
  let p := { p with disableKeyboard := on }
  (resubscribe c between
    [(clipboardService, p.canSubClipboardService st),
      (nameCursor, p.peerKeyboardEnabled || p.showRemoteCursor)] s, p)

/-- An option that is set is acted on. -/
def whenSet (value : Int) (set : Bool → Handler μ) : Handler μ := fun x =>
  match BoolOption.ofInt value with
  | some .yes => set true x
  | some .no => set false x
  | some .notSet | none => x

def updateOptions (between : Nat → Between μ) (o : OptionMessage) : Handler μ := fun x =>
  let x := whenSet o.showRemoteCursor (setShowRemoteCursor c (between 0)) x
  let x := whenSet o.followRemoteWindow (setFollowRemoteWindow c (between 1)) x
  let x := whenSet o.disableAudio (setDisableAudio c (between 2)) x
  let x := whenSet o.disableClipboard (setDisableClipboard st c (between 3)) x
  whenSet o.disableKeyboard (setDisableKeyboard st c (between 4)) x

/-- The services that a session for the screen goes without. -/
def noperms (p : Peer) : List (List Char) :=
  (if !p.peerKeyboardEnabled && !p.showRemoteCursor then [nameCursor] else [])
    ++ (if !p.showRemoteCursor then [namePos] else [])
    ++ (if !p.followRemoteWindow then [nameWindowFocus] else [])
    ++ (if !p.canSubClipboardService st then [clipboardService] else [])
    ++ (if !p.audioEnabled then [audioService] else [])

def trySubMonitorServices : Handler μ := fun (s, p) =>
  if p.authedConnType = some .remote ∧ !p.servicesSubed then
    ((s.tryAddVideoService .monitor st.primaryDisplay).addConnection c st.primaryDisplay
      (noperms st p), { p with servicesSubed := true })
  else (s, p)

/-- `try_sub_camera_displays`, where there is a camera or not. -/
def trySubCameraDisplays (camera : Bool) : Handler μ := fun (s, p) =>
  if camera then
    ((s.tryAddVideoService .camera primaryCamera).addCameraConnection c primaryCamera, p)
  else (s, p)

def switchDisplayTo (between : Nat → Between μ) (displayIdx : Nat) : Handler μ := fun (s, p) =>
  let newServiceName := getServiceName p.videoSource displayIdx
  let oldServiceName := getServiceName p.videoSource p.displayIdx
  let s :=
    if displayIdx ≠ st.primaryDisplay then s.tryAddVideoService p.videoSource displayIdx else s
  let s := if p.supportMultiUi then s else s.subscribe oldServiceName c false (between 0)
  (s.subscribe newServiceName c true (between 1), { p with displayIdx })

def captureDisplays (between : Nat → Between μ) (add sub set : List Nat) : Handler μ :=
  fun (s, p) =>
    let source := p.videoSource
    let s := (add ++ set).foldl (fun s d => s.tryAddVideoService source d) s
    let s :=
      if add ≠ [] then s.captureDisplays c source add true false (between 0)
      else if sub ≠ [] then s.captureDisplays c source sub false true (between 0)
      else s.captureDisplays c source set true true (between 0)
    let (count, s) := s.getSubbedDisplaysCount c (between 1)
    let p := { p with multiUiSession := decide (1 < count) }
    if p.followRemoteWindow then
      (resubscribe c (between 2) [(nameWindowFocus, !p.multiUiSession)] s, p)
    else (s, p)

/-- `SwitchPermission` of the connection manager. The other permissions have no service. -/
def switchPermission (between : Between μ) (name : String) (enabled : Bool) : Handler μ :=
  fun (s, p) =>
    let p := { p with switched := true }
    if name = "keyboard" then
      let p := { p with keyboard := enabled }
      (resubscribe c between
        [(clipboardService, p.canSubClipboardService st),
          (nameCursor, enabled || p.showRemoteCursor)] s, p)
    else if name = "clipboard" then
      let p := { p with clipboard := enabled }
      (resubscribe c between [(clipboardService, p.canSubClipboardService st)] s, p)
    else if name = "audio" then
      let p := { p with audio := enabled }
      if p.authedConnType.isSome then subscribeAudio c between (s, p) else (s, p)
    else (s, p)

def handleVoiceCall (between : Between μ) (accepted : Bool) : Handler μ := fun (s, p) =>
  if p.voiceCallRequested then
    let p := { p with voiceCallRequested := false, voiceCalling := accepted }
    if p.authedConnType = some .viewCamera then
      (resubscribe c between [(audioService, p.audioEnabled && accepted)] s, p)
    else (s, p)
  else (s, p)

def closeVoiceCall (between : Between μ) : Handler μ := fun (s, p) =>
  let p := { p with voiceCalling := false }
  if p.authedConnType = some .viewCamera then
    (resubscribe c between [(audioService, false)] s, p)
  else (s, p)

end Handlers

/-! ## The host -/

/-- What a connection receives: a login that succeeds, with whether the displays could be read,
whether the session of Windows is to be chosen first and whether there is a camera; the messages
of an authorized peer; and those of the connection manager. -/
inductive ConnEvent where
  | login (type : AuthConnType) (option : Option OptionMessage) (supportMultiUi displays waitSid
      camera : Bool)
  | selectedSid (camera : Bool)
  | option (o : OptionMessage)
  | switchDisplay (display : Nat)
  | captureDisplays (add sub set : List Nat)
  | voiceCallRequest (isConnect : Bool)
  | switchPermission (name : String) (enabled : Bool)
  | voiceCallResponse (accepted : Bool)
  | closeVoiceCall

section Handle

variable (st : Settings) (c : Int)

/-- `update_scoped_login_options`. -/
def updateScopedLoginOptions (between : Nat → Between μ) (type : AuthConnType)
    (option : Option OptionMessage) : Handler μ := fun x =>
  match option.bind fun o => (scopedLoginOption type o).1 with
  | some o => updateOptions st c between o x
  | none => x

/-- The end of `send_logon_response`, behind the factors of the login. -/
def login (between : Nat → Between μ) (type : AuthConnType) (option : Option OptionMessage)
    (supportMultiUi displays waitSid camera : Bool) : Handler μ := fun (s, p) =>
  let p := { p with authedConnType := some type, supportMultiUi }
  if type = .portForward then (s, p)
  else
    let x := updateScopedLoginOptions st c between type option (s, p)
    match type with
    | .fileTransfer | .terminal => (x.1, { x.2 with keyboard := false })
    | .viewCamera =>
      let x := if waitSid then x else trySubCameraDisplays c camera x
      (x.1, { x.2 with keyboard := false })
    | .remote => if displays && !waitSid then trySubMonitorServices st c x else x
    | .portForward => x

/-- `scoped_update_option_message`, where the session is limited. -/
def scopedUpdateOptionMessage (type : AuthConnType) (o : OptionMessage) : Option OptionMessage :=
  match type with
  | .remote => some o
  | .viewCamera => (scopedViewCameraOption o).1
  | .terminal => (scopedTerminalLoginOption o).1
  | .fileTransfer | .portForward => none

def onOption (between : Nat → Between μ) (o : OptionMessage) : Handler μ := fun x =>
  match x.2.authedConnType.bind fun type => scopedUpdateOptionMessage type o with
  | some o => updateOptions st c between o x
  | none => x

def onSelectedSid (camera : Bool) : Handler μ := fun x =>
  match x.2.authedConnType with
  | some .viewCamera => trySubCameraDisplays c camera x
  | some .remote => trySubMonitorServices st c x
  | _ => x

def handle (between : Nat → Between μ) : ConnEvent → Handler μ
  | .login type option supportMultiUi displays waitSid camera => fun x =>
    if x.2.authedConnType.isSome then x
    else login st c between type option supportMultiUi displays waitSid camera x
  | .selectedSid camera => fun x =>
    if x.2.accepts (.misc .selectedSid) then onSelectedSid st c camera x else x
  | .option o => fun x =>
    if x.2.accepts (.misc (.option o)) then onOption st c between o x else x
  | .switchDisplay display => fun x =>
    if x.2.accepts (.misc .switchDisplay) ∧ x.2.displayIdx ≠ display then
      switchDisplayTo st c between display x
    else x
  | .captureDisplays add sub set => fun x =>
    if x.2.accepts (.misc .captureDisplays) then captureDisplays c between add sub set x else x
  | .voiceCallRequest isConnect => fun x =>
    if x.2.accepts .voiceCallRequest then
      if isConnect then (x.1, { x.2 with voiceCallRequested := true })
      else closeVoiceCall c (between 0) x
    else x
  | .switchPermission name enabled => switchPermission st c (between 0) name enabled
  | .voiceCallResponse accepted => handleVoiceCall c (between 0) accepted
  | .closeVoiceCall => closeVoiceCall c (between 0)

end Handle

/-- The services of a host, its open connections and the last number given to one. -/
structure HostState (μ : Type*) where
  server : Server μ
  peers : Table Int Peer := ∅
  idCount : Int

/-- A connection comes with the permissions that the host gives, receives something, or ends;
or the thread of a service does something. -/
inductive HostEvent (μ : Type*) where
  | connect (keyboard clipboard audio : Bool)
  | receive (c : Int) (e : ConnEvent) (between : Nat → Between μ)
  | close (c : Int)
  | service (name : List Char) (e : ThreadStep μ)

def step (st : Settings) (h : HostState μ) : HostEvent μ → HostState μ
  | .connect keyboard clipboard audio =>
    let c := h.idCount + 1
    { h with
      idCount := c
      peers := h.peers.insert c { keyboard, clipboard, audio, displayIdx := st.primaryDisplay } }
  | .receive c e between =>
    match h.peers.get c with
    | none => h
    | some p =>
      let x := handle st c between e (h.server, p)
      { h with server := x.1, peers := h.peers.insert c x.2 }
  | .close c =>
    if (h.peers.get c).isSome then
      { h with server := h.server.removeConnection c, peers := h.peers.remove c }
    else h
  | .service name e => { h with server := h.server.thread name e }

/-- A host without connections. -/
def start (cursorEmbedded printer : Bool) (idCount : Int) : HostState μ where
  server := newServer cursorEmbedded printer
  idCount

/-! ## What a connection may hear, and what it must -/

namespace Peer

variable (st : Settings) (p : Peer)

/-- A session of a kind, or one that is not limited to it and has been given more by the host. -/
def mayHear : Topic → Bool
  | .audio => p.audioEnabled && match p.authedConnType with
    | some .remote => true
    | some .viewCamera => p.voiceCalling
    | some _ => p.switched
    | none => false
  | .clipboard => p.clipboardEnabled && !p.disableKeyboard && !st.oneWayClipboard &&
    match p.authedConnType with
    | some .remote => p.keyboard
    | some _ => p.switched
    | none => p.keyboard && p.switched
  | .cursor => match p.authedConnType with
    | some .remote => p.keyboard || p.showRemoteCursor
    | some _ => p.switched
    | none => (p.keyboard || p.showRemoteCursor) && p.switched
  | .pos => p.authedConnType == some .remote && p.showRemoteCursor
  | .windowFocus => p.authedConnType == some .remote && p.followRemoteWindow
  | .camera => p.authedConnType == some .viewCamera
  | .monitor | .other => p.authedConnType == some .remote

def mustHear : Topic → Bool
  | .audio => p.audioEnabled && (p.authedConnType == some .remote && p.servicesSubed ||
    p.authedConnType == some .viewCamera && p.voiceCalling)
  | .clipboard => p.authedConnType == some .remote && p.servicesSubed &&
    p.canSubClipboardService st
  | .cursor => p.authedConnType == some .remote && p.servicesSubed &&
    (p.peerKeyboardEnabled || p.showRemoteCursor)
  | .pos => p.authedConnType == some .remote && p.showRemoteCursor
  | .windowFocus => p.authedConnType == some .remote && p.followRemoteWindow && !p.multiUiSession
  | .other => p.authedConnType == some .remote && p.servicesSubed
  | .monitor | .camera => false

end Peer

end MDesk.HostServices
