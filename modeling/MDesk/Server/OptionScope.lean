import MDesk.Core.Run
import MDesk.Server.LoginMessages

/-!
# Options of limited sessions

A session for files, a camera, a terminal or a forwarded port may set the options of its own kind
and no others, in its login request and afterwards. Which options these are is kept in four lists
of fields in the source; they agree when each of them is the same statement about the fields.
-/

namespace MDesk.OptionScope

open MDesk.Core
open MDesk.HostLogin (AuthConnType)

/-! ## Messages -/

inductive ImageQuality where
  | notSet
  | low
  | balanced
  | best
  deriving DecidableEq, Repr

inductive BoolOption where
  | notSet
  | no
  | yes
  deriving DecidableEq, Repr

/-- `EnumOrUnknown::enum_value`. -/
def ImageQuality.ofInt : Int → Option ImageQuality
  | 0 => some .notSet
  | 2 => some .low
  | 3 => some .balanced
  | 4 => some .best
  | _ => none

def ImageQuality.toInt : ImageQuality → Int
  | .notSet => 0
  | .low => 2
  | .balanced => 3
  | .best => 4

def BoolOption.ofInt : Int → Option BoolOption
  | 0 => some .notSet
  | 1 => some .no
  | 2 => some .yes
  | _ => none

def BoolOption.toInt : BoolOption → Int
  | .notSet => 0
  | .no => 1
  | .yes => 2

structure CodecAbility where
  vp8 : Bool := false
  vp9 : Bool := false
  av1 : Bool := false
  h264 : Bool := false
  h265 : Bool := false
  deriving DecidableEq, Repr

structure SupportedDecoding where
  abilityVp9 : Int := 0
  abilityH264 : Int := 0
  abilityH265 : Int := 0
  prefer : Int := 0
  abilityVp8 : Int := 0
  abilityAv1 : Int := 0
  i444 : Option CodecAbility := none
  preferChroma : Int := 0
  deriving DecidableEq, Repr

/-- `OptionMessage`. The enumerations are the numbers that the peer has sent. -/
structure OptionMessage where
  imageQuality : Int := 0
  lockAfterSessionEnd : Int := 0
  showRemoteCursor : Int := 0
  privacyMode : Int := 0
  blockInput : Int := 0
  customImageQuality : Int := 0
  disableAudio : Int := 0
  disableClipboard : Int := 0
  enableFileTransfer : Int := 0
  supportedDecoding : Option SupportedDecoding := none
  customFps : Int := 0
  disableKeyboard : Int := 0
  followRemoteCursor : Int := 0
  followRemoteWindow : Int := 0
  disableCamera : Int := 0
  terminalPersistent : Int := 0
  showMyCursor : Int := 0
  deriving DecidableEq, Repr

inductive Misc where
  | switchDisplay
  | captureDisplays
  | toggleVirtualDisplay
  | togglePrivacyMode
  | chatMessage
  | option (o : OptionMessage)
  | refreshVideo
  | refreshVideoDisplay
  | videoReceived
  | audioFormat
  | clientRecordStatus
  | messageQuery
  | changeResolution
  | changeDisplayResolution
  | followCurrentDisplay
  | selectedSid
  | closeReason
  | other
  | empty
  deriving DecidableEq, Repr

inductive Message where
  | loginRequest
  | testDelay
  | mouseEvent
  | audioFrame
  | pointerDeviceEvent
  | keyEvent
  | clipboard
  | multiClipboards
  | fileAction
  | fileResponse
  | voiceCallRequest
  | voiceCallResponse
  | screenshotRequest
  | screenshotResponse
  | terminalAction
  | terminalResponse
  | misc (m : Misc)
  | other
  | empty
  deriving DecidableEq, Repr

/-! ## The lists of fields -/

def isBoolOptionNotSet (option : Int) : Bool := BoolOption.ofInt option = some .notSet

def optionHasNonViewCameraLoginField (option : OptionMessage) : Bool :=
  !(isBoolOptionNotSet option.lockAfterSessionEnd
    && isBoolOptionNotSet option.showRemoteCursor
    && isBoolOptionNotSet option.privacyMode
    && isBoolOptionNotSet option.blockInput
    && isBoolOptionNotSet option.disableClipboard
    && isBoolOptionNotSet option.enableFileTransfer
    && isBoolOptionNotSet option.disableKeyboard
    && isBoolOptionNotSet option.followRemoteCursor
    && isBoolOptionNotSet option.followRemoteWindow
    && isBoolOptionNotSet option.disableCamera
    && isBoolOptionNotSet option.terminalPersistent
    && isBoolOptionNotSet option.showMyCursor)

def optionHasNonTerminalLoginField (option : OptionMessage) : Bool :=
  ImageQuality.ofInt option.imageQuality ≠ some .notSet
    || option.customImageQuality ≠ 0
    || option.customFps ≠ 0
    || option.supportedDecoding.isSome
    || !isBoolOptionNotSet option.lockAfterSessionEnd
    || !isBoolOptionNotSet option.showRemoteCursor
    || !isBoolOptionNotSet option.privacyMode
    || !isBoolOptionNotSet option.blockInput
    || !isBoolOptionNotSet option.disableAudio
    || !isBoolOptionNotSet option.disableClipboard
    || !isBoolOptionNotSet option.enableFileTransfer
    || !isBoolOptionNotSet option.disableKeyboard
    || !isBoolOptionNotSet option.followRemoteCursor
    || !isBoolOptionNotSet option.followRemoteWindow
    || !isBoolOptionNotSet option.disableCamera
    || !isBoolOptionNotSet option.showMyCursor

def optionHasAnyField (option : OptionMessage) : Bool :=
  optionHasNonTerminalLoginField option || !isBoolOptionNotSet option.terminalPersistent

def isSupportedDecodingOnlyOption (option : OptionMessage) : Bool :=
  option.supportedDecoding.isSome
    && ImageQuality.ofInt option.imageQuality = some .notSet
    && option.customImageQuality = 0
    && option.customFps = 0
    && isBoolOptionNotSet option.lockAfterSessionEnd
    && isBoolOptionNotSet option.showRemoteCursor
    && isBoolOptionNotSet option.privacyMode
    && isBoolOptionNotSet option.blockInput
    && isBoolOptionNotSet option.disableAudio
    && isBoolOptionNotSet option.disableClipboard
    && isBoolOptionNotSet option.enableFileTransfer
    && isBoolOptionNotSet option.disableKeyboard
    && isBoolOptionNotSet option.followRemoteCursor
    && isBoolOptionNotSet option.followRemoteWindow
    && isBoolOptionNotSet option.disableCamera
    && isBoolOptionNotSet option.terminalPersistent
    && isBoolOptionNotSet option.showMyCursor

/-! ## Scoping -/

def scopedViewCameraFields (option : OptionMessage) : OptionMessage where
  imageQuality :=
    if (ImageQuality.ofInt option.imageQuality).isSome then option.imageQuality else 0
  customImageQuality := if 0 ≤ option.customImageQuality then option.customImageQuality else 0
  customFps := if 0 ≤ option.customFps then option.customFps else 0
  supportedDecoding := option.supportedDecoding
  disableAudio :=
    match BoolOption.ofInt option.disableAudio with
    | some value => value.toInt
    | none => 0

def scopedViewCameraOption (option : OptionMessage) : Option OptionMessage × Option String :=
  let fields := scopedViewCameraFields option
  (if optionHasAnyField fields then some fields else none,
    if optionHasNonViewCameraLoginField option then some "login.option" else none)

def scopedTerminalFields (option : OptionMessage) : OptionMessage where
  terminalPersistent :=
    match BoolOption.ofInt option.terminalPersistent with
    | some value => value.toInt
    | none => 0

def scopedTerminalLoginOption (option : OptionMessage) : Option OptionMessage × Option String :=
  let fields := scopedTerminalFields option
  let violation := (BoolOption.ofInt option.terminalPersistent).isNone ||
    optionHasNonTerminalLoginField option
  (if optionHasAnyField fields then some fields else none,
    if violation then some "login.option" else none)

def scopedLoginOption (connType : AuthConnType) (option : OptionMessage) :
    Option OptionMessage × Option String :=
  match connType with
  | .remote => (some option, none)
  | .viewCamera => scopedViewCameraOption option
  | .terminal => scopedTerminalLoginOption option
  | .fileTransfer | .portForward =>
    (none, if optionHasAnyField option then some "login.option" else none)

/-! ## Messages out of scope -/

def isConnectionHousekeepingMessage : Message → Bool
  | .loginRequest | .testDelay | .misc .closeReason => true
  | _ => false

def isRenderBroadcastNoopCompatMessage : Message → Bool
  | .misc .refreshVideo | .misc .refreshVideoDisplay => true
  | .misc (.option option) => isSupportedDecodingOnlyOption option
  | _ => false

def isTextClipboardNoopCompatMessage : Message → Bool
  | .clipboard | .multiClipboards => true
  | _ => false

/-- The platform's own scope is that of Windows or not. -/
def isFileTransferScopedMessage (windows : Bool) : Message → Bool
  | .fileAction | .fileResponse => true
  | .misc .selectedSid => windows
  | _ => false

def isTerminalScopedMessage : Message → Bool
  | .terminalAction | .misc .chatMessage => true
  | .misc (.option option) => (scopedTerminalLoginOption option).2.isNone
  | _ => false

def isViewCameraScopedMessage (windows : Bool) : Message → Bool
  | .screenshotRequest | .mouseEvent | .pointerDeviceEvent | .keyEvent | .audioFrame
  | .voiceCallRequest | .voiceCallResponse => true
  | .misc .switchDisplay | .misc .captureDisplays | .misc .refreshVideo
  | .misc .refreshVideoDisplay | .misc .videoReceived | .misc .chatMessage | .misc .audioFormat
  | .misc .clientRecordStatus | .misc .messageQuery | .misc .togglePrivacyMode
  | .misc .toggleVirtualDisplay | .misc .changeResolution | .misc .changeDisplayResolution => true
  | .misc (.option option) => (scopedViewCameraOption option).2.isNone
  | .misc .selectedSid => windows
  | _ => false

def miscMessageFamily : Misc → String
  | .chatMessage => "misc.chat_message"
  | .switchDisplay => "misc.switch_display"
  | .option _ => "misc.option"
  | .audioFormat => "misc.audio_format"
  | .captureDisplays => "misc.capture_displays"
  | .clientRecordStatus => "misc.client_record_status"
  | .togglePrivacyMode => "misc.toggle_privacy_mode"
  | .toggleVirtualDisplay => "misc.toggle_virtual_display"
  | .selectedSid => "misc.selected_sid"
  | .changeResolution => "misc.change_resolution"
  | .changeDisplayResolution => "misc.change_display_resolution"
  | .messageQuery => "misc.message_query"
  | .followCurrentDisplay => "misc.follow_current_display"
  | .empty => "misc.empty"
  | .refreshVideo | .refreshVideoDisplay | .videoReceived | .closeReason | .other => "misc.other"

def messageFamily : Message → String
  | .mouseEvent => "mouse_event"
  | .audioFrame => "audio_frame"
  | .pointerDeviceEvent => "pointer_device_event"
  | .keyEvent => "key_event"
  | .clipboard => "clipboard"
  | .fileAction => "file_action"
  | .fileResponse => "file_response"
  | .voiceCallRequest => "voice_call_request"
  | .voiceCallResponse => "voice_call_response"
  | .multiClipboards => "multi_clipboards"
  | .screenshotRequest => "screenshot_request"
  | .screenshotResponse => "screenshot_response"
  | .terminalAction => "terminal_action"
  | .terminalResponse => "terminal_response"
  | .misc misc => miscMessageFamily misc
  | .loginRequest | .testDelay | .other => "message.other"
  | .empty => "empty"

def authorizedMessageScopeViolation (windows : Bool) (connType : AuthConnType) (msg : Message) :
    Option String :=
  if isConnectionHousekeepingMessage msg then none
  else
    let noopCompat := match connType with
      | .fileTransfer | .terminal =>
        isRenderBroadcastNoopCompatMessage msg || isTextClipboardNoopCompatMessage msg
      | .portForward => isRenderBroadcastNoopCompatMessage msg
      | .viewCamera => isTextClipboardNoopCompatMessage msg
      | .remote => false
    if noopCompat then none
    else
      let allowed := match connType with
        | .remote => true
        | .fileTransfer => isFileTransferScopedMessage windows msg
        | .portForward => false
        | .viewCamera => isViewCameraScopedMessage windows msg
        | .terminal => isTerminalScopedMessage msg
      if allowed then none else some (messageFamily msg)

/-! ## A session -/

/-- A call of `update_options`: the session it is made in, the message of the peer and the one
that is passed. -/
structure Update where
  connType : AuthConnType
  peer : OptionMessage
  passed : OptionMessage
  deriving DecidableEq, Repr

/-- A connection, as far as its options go. -/
structure Session where
  authorized : Bool := false
  authedConnType : Option AuthConnType := none
  optionsInLogin : Option OptionMessage := none
  updates : List Update := []
  deriving DecidableEq, Repr

/-- A login request with its options, a login request inside a message that switches sides, the
authorization of the connection, and a message of the peer. -/
inductive SessionEvent where
  | login (option : Option OptionMessage)
  | switchSides (option : Option OptionMessage)
  | authorize (connType : AuthConnType)
  | message (msg : Message)
  deriving DecidableEq, Repr

namespace Session

variable (windows : Bool)

def update (s : Session) (connType : AuthConnType) (peer passed : OptionMessage) : Session :=
  { s with updates := s.updates ++ [⟨connType, peer, passed⟩] }

def updateScopedLoginOptions (s : Session) : Session :=
  match s.optionsInLogin with
  | none => s
  | some option =>
    let s := { s with optionsInLogin := none }
    match s.authedConnType with
    | none => s
    | some connType =>
      match (scopedLoginOption connType option).1 with
      | some passed => s.update connType option passed
      | none => s

def scopedUpdateOptionMessage (s : Session) (option : OptionMessage) : Option OptionMessage :=
  match s.authedConnType with
  | some .viewCamera => (scopedViewCameraOption option).1
  | some .terminal => (scopedTerminalLoginOption option).1
  | some .remote | some .fileTransfer | some .portForward | none => none

/-- A later option message. -/
def onOption (s : Session) (option : OptionMessage) : Session :=
  match s.authedConnType with
  | none => s
  | some connType =>
    if connType = .remote then s.update connType option option
    else
      match s.scopedUpdateOptionMessage option with
      | some passed => s.update connType option passed
      | none => s

/-- `authorized_scope_violation`. -/
def scopeViolation (s : Session) (msg : Message) : Option String :=
  match s.authedConnType with
  | none => if isConnectionHousekeepingMessage msg then none else some "session.auth_type"
  | some connType => authorizedMessageScopeViolation windows connType msg

/-- One event. A login request of an authorized connection is not looked at. -/
def step (s : Session) : SessionEvent → Session
  | .login option => if s.authorized then s else { s with optionsInLogin := option }
  -- only `LoginRequest` resets the scope of the session first
  | .switchSides option =>
    if s.authorized then s else { s with optionsInLogin := option.or s.optionsInLogin }
  | .authorize connType =>
    if s.authorized then s
    else
      { s with authorized := true, authedConnType := some connType }.updateScopedLoginOptions
  | .message msg =>
    if !s.authorized ∨ (s.scopeViolation windows msg).isSome then s
    else
      match msg with
      | .misc (.option option) => s.onOption option
      | _ => s

end Session

/-! ## Fields -/

/-- The fields of an option message. -/
inductive Field where
  | imageQuality
  | customImageQuality
  | customFps
  | supportedDecoding
  | lockAfterSessionEnd
  | showRemoteCursor
  | privacyMode
  | blockInput
  | disableAudio
  | disableClipboard
  | enableFileTransfer
  | disableKeyboard
  | followRemoteCursor
  | followRemoteWindow
  | disableCamera
  | showMyCursor
  | terminalPersistent
  deriving DecidableEq, Repr

/-- What a field holds. -/
inductive FieldValue where
  | number (v : Int)
  | decoding (d : Option SupportedDecoding)
  deriving DecidableEq, Repr

namespace Field

def all : List Field :=
  [imageQuality, customImageQuality, customFps, supportedDecoding, lockAfterSessionEnd,
    showRemoteCursor, privacyMode, blockInput, disableAudio, disableClipboard, enableFileTransfer,
    disableKeyboard, followRemoteCursor, followRemoteWindow, disableCamera, showMyCursor,
    terminalPersistent]

theorem mem_all (f : Field) : f ∈ all := by
  cases f <;> decide

/-- The value of a field in a message. -/
def get (f : Field) (o : OptionMessage) : FieldValue :=
  match f with
  | imageQuality => .number o.imageQuality
  | customImageQuality => .number o.customImageQuality
  | customFps => .number o.customFps
  | supportedDecoding => .decoding o.supportedDecoding
  | lockAfterSessionEnd => .number o.lockAfterSessionEnd
  | showRemoteCursor => .number o.showRemoteCursor
  | privacyMode => .number o.privacyMode
  | blockInput => .number o.blockInput
  | disableAudio => .number o.disableAudio
  | disableClipboard => .number o.disableClipboard
  | enableFileTransfer => .number o.enableFileTransfer
  | disableKeyboard => .number o.disableKeyboard
  | followRemoteCursor => .number o.followRemoteCursor
  | followRemoteWindow => .number o.followRemoteWindow
  | disableCamera => .number o.disableCamera
  | showMyCursor => .number o.showMyCursor
  | terminalPersistent => .number o.terminalPersistent

/-- A field that is not as in an empty message. -/
def IsSet (f : Field) (o : OptionMessage) : Prop := f.get o ≠ f.get {}

/-- A value that the host understands. -/
def isValid : Field → FieldValue → Bool
  | imageQuality, .number v => (ImageQuality.ofInt v).isSome
  | customImageQuality, .number v | customFps, .number v => 0 ≤ v
  | _, .number v => (BoolOption.ofInt v).isSome
  | _, .decoding _ => true

abbrev Valid (f : Field) (o : OptionMessage) : Prop := f.isValid (f.get o)

/-- The fields that a session type may set. -/
def scope : AuthConnType → List Field
  | .remote => all
  | .viewCamera =>
    [imageQuality, customImageQuality, customFps, supportedDecoding, disableAudio]
  | .terminal => [terminalPersistent]
  | .fileTransfer | .portForward => []

/-- Messages are equal when their fields are. -/
theorem ext {o o' : OptionMessage} (h : ∀ f : Field, f.get o = f.get o') : o = o' := by
  have hall := fun f (_ : f ∈ all) => h f
  cases o
  cases o'
  simpa [all, get, and_assoc, and_left_comm, and_comm] using hall

theorem valid_empty (f : Field) : f.Valid {} := by
  cases f <;> rfl

end Field

/-! ## The lists agree -/

section Lists

variable {o : OptionMessage} {v : Int}

theorem boolOption_ofInt_eq : BoolOption.ofInt v = some .notSet ↔ v = 0 := by
  unfold BoolOption.ofInt
  split <;> simp_all

theorem imageQuality_ofInt_eq : ImageQuality.ofInt v = some .notSet ↔ v = 0 := by
  unfold ImageQuality.ofInt
  split <;> simp_all

theorem boolOption_toInt_of_ofInt {b : BoolOption} (h : BoolOption.ofInt v = some b) :
    b.toInt = v := by
  unfold BoolOption.ofInt at h
  split at h <;> cases h <;> rfl

@[simp] theorem isBoolOptionNotSet_iff : isBoolOptionNotSet v = true ↔ v = 0 := by
  rw [isBoolOptionNotSet, decide_eq_true_eq, boolOption_ofInt_eq]

@[simp] theorem isBoolOptionNotSet_eq_false : isBoolOptionNotSet v = false ↔ v ≠ 0 := by
  rw [← Bool.not_eq_true, isBoolOptionNotSet_iff]

theorem optionHasNonTerminalLoginField_iff :
    optionHasNonTerminalLoginField o = true ↔ ∃ f ∉ Field.scope .terminal, f.IsSet o := by
  have h : (∃ f ∉ Field.scope .terminal, f.IsSet o) ↔
      ∃ f ∈ Field.all, f ∉ Field.scope .terminal ∧ f.IsSet o := by
    simp only [Field.mem_all, true_and]
  rw [h]
  simp [optionHasNonTerminalLoginField, Field.all, Field.scope, Field.IsSet, Field.get,
    imageQuality_ofInt_eq, Option.isSome_iff_ne_none, Bool.eq_false_iff, or_assoc]

theorem optionHasNonViewCameraLoginField_iff :
    optionHasNonViewCameraLoginField o = true ↔ ∃ f ∉ Field.scope .viewCamera, f.IsSet o := by
  have h : (∃ f ∉ Field.scope .viewCamera, f.IsSet o) ↔
      ∃ f ∈ Field.all, f ∉ Field.scope .viewCamera ∧ f.IsSet o := by
    simp only [Field.mem_all, true_and]
  rw [h]
  simp [optionHasNonViewCameraLoginField, Field.all, Field.scope, Field.IsSet, Field.get,
    Bool.eq_false_iff, or_assoc]
  tauto

theorem optionHasAnyField_iff : optionHasAnyField o = true ↔ ∃ f : Field, f.IsSet o := by
  rw [optionHasAnyField, Bool.or_eq_true, optionHasNonTerminalLoginField_iff]
  constructor
  · rintro (⟨f, -, h⟩ | h)
    · exact ⟨f, h⟩
    · exact ⟨.terminalPersistent, by simpa [Field.IsSet, Field.get] using h⟩
  · rintro ⟨f, h⟩
    by_cases hf : f ∈ Field.scope .terminal
    · obtain rfl : f = .terminalPersistent := by simpa [Field.scope] using hf
      exact .inr (by simpa [Field.IsSet, Field.get] using h)
    · exact .inl ⟨f, hf, h⟩

theorem isSupportedDecodingOnlyOption_iff :
    isSupportedDecodingOnlyOption o = true ↔
      ∀ f : Field, f.IsSet o ↔ f = .supportedDecoding := by
  have h : (∀ f : Field, f.IsSet o ↔ f = .supportedDecoding) ↔
      ∀ f ∈ Field.all, f.IsSet o ↔ f = .supportedDecoding := by
    simp only [Field.mem_all, true_imp_iff]
  rw [h]
  simp [isSupportedDecodingOnlyOption, Field.all, Field.IsSet, Field.get,
    imageQuality_ofInt_eq, Option.isSome_iff_ne_none]
  tauto

end Lists

/-! ## Scoping -/

/-- A message cut down to the scope of a session type: its fields of the scope that hold a valid
value, and nothing else. -/
def Cut (connType : AuthConnType) (o s : OptionMessage) : Prop :=
  ∀ f : Field, f.get s =
    if f ∈ Field.scope connType ∧ f.Valid o then f.get o else f.get {}

section Cut

variable {connType : AuthConnType} {o s s' : OptionMessage} {f : Field}

theorem Cut.of_isSet (h : Cut connType o s) (hs : f.IsSet s) :
    f ∈ Field.scope connType ∧ f.Valid o ∧ f.get s = f.get o := by
  have hf := h f
  split at hf
  case isTrue hin => exact ⟨hin.1, hin.2, hf⟩
  case isFalse => exact absurd hf hs

theorem Cut.valid (h : Cut connType o s) (f : Field) : f.Valid s := by
  have hf := h f
  rw [Field.Valid, hf]
  split
  case isTrue hin => exact hin.2
  case isFalse => exact f.valid_empty

theorem Cut.get_eq (h : Cut connType o s) (hf : f ∈ Field.scope connType) (hv : f.Valid o) :
    f.get s = f.get o := by
  rw [h f, if_pos ⟨hf, hv⟩]

/-- What is cut down twice is cut down once. -/
theorem Cut.idem (h : Cut connType o s) (h' : Cut connType s s') : s' = s := by
  apply Field.ext
  intro f
  rw [h' f]
  split
  case isTrue => rfl
  case isFalse hnot =>
    by_contra hne
    exact hnot ⟨(h.of_isSet (Ne.symm hne)).1, h.valid f⟩

theorem cut_empty (h : Field.scope connType = []) : Cut connType o {} := by
  intro f
  rw [if_neg]
  simp [h]

theorem cut_scopedViewCameraFields : Cut .viewCamera o (scopedViewCameraFields o) := by
  have haudio : (match BoolOption.ofInt o.disableAudio with
      | some value => value.toInt
      | none => 0) = if (BoolOption.ofInt o.disableAudio).isSome then o.disableAudio else 0 := by
    cases h : BoolOption.ofInt o.disableAudio with
    | none => rfl
    | some value => simp [boolOption_toInt_of_ofInt h]
  intro f
  cases f <;>
    simp [Field.scope, Field.get, Field.Valid, Field.isValid, scopedViewCameraFields, haudio,
      apply_ite FieldValue.number]

theorem cut_scopedTerminalFields : Cut .terminal o (scopedTerminalFields o) := by
  intro f
  cases f <;> simp [Field.scope, Field.get, Field.Valid, Field.isValid, scopedTerminalFields]
  cases h : BoolOption.ofInt o.terminalPersistent with
  | none => rfl
  | some value => simp [boolOption_toInt_of_ofInt h]

/-- What is passed to a limited session is the message cut down to its scope, unless that is
empty. -/
theorem scopedLoginOption_fst (hlim : connType ≠ .remote) :
    ∃ fields, Cut connType o fields ∧
      (scopedLoginOption connType o).1 =
        if optionHasAnyField fields then some fields else none := by
  cases connType with
  | remote => exact absurd rfl hlim
  | viewCamera => exact ⟨_, cut_scopedViewCameraFields, rfl⟩
  | terminal => exact ⟨_, cut_scopedTerminalFields, rfl⟩
  | fileTransfer => exact ⟨{}, cut_empty rfl, rfl⟩
  | portForward => exact ⟨{}, cut_empty rfl, rfl⟩

theorem cut_of_scopedLoginOption (hlim : connType ≠ .remote)
    (h : (scopedLoginOption connType o).1 = some s) : Cut connType o s := by
  obtain ⟨fields, hcut, heq⟩ := scopedLoginOption_fst (o := o) hlim
  rw [heq, Option.ite_none_right_eq_some, Option.some_inj] at h
  exact h.2 ▸ hcut

/-- Messages that set fields of the scope only, with valid values, are in scope. -/
theorem scopedLoginOption_snd (hscope : ∀ f : Field, f.IsSet o → f ∈ Field.scope connType)
    (hvalid : ∀ f : Field, f.Valid o) : (scopedLoginOption connType o).2 = none := by
  cases connType with
  | remote => rfl
  | viewCamera =>
    have hno : ¬optionHasNonViewCameraLoginField o := by
      rw [optionHasNonViewCameraLoginField_iff]
      rintro ⟨f, hf, hset⟩
      exact hf (hscope f hset)
    simp [scopedLoginOption, scopedViewCameraOption, hno]
  | terminal =>
    have hno : ¬optionHasNonTerminalLoginField o := by
      rw [optionHasNonTerminalLoginField_iff]
      rintro ⟨f, hf, hset⟩
      exact hf (hscope f hset)
    have hbool : (BoolOption.ofInt o.terminalPersistent).isSome := hvalid .terminalPersistent
    simp [scopedLoginOption, scopedTerminalLoginOption, hno, Option.isSome_iff_ne_none.mp hbool]
  | fileTransfer | portForward =>
    have hno : ¬optionHasAnyField o := by
      rw [optionHasAnyField_iff]
      rintro ⟨f, hset⟩
      exact List.not_mem_nil (hscope f hset)
    simp [scopedLoginOption, hno]

theorem scopedLoginOption_of_isSet (hlim : connType ≠ .remote)
    (hf : f ∈ Field.scope connType) (hv : f.Valid o) (hset : f.IsSet o) :
    ∃ s, (scopedLoginOption connType o).1 = some s ∧ f.get s = f.get o := by
  obtain ⟨fields, hcut, heq⟩ := scopedLoginOption_fst (o := o) hlim
  have hget : f.get fields = f.get o := hcut.get_eq hf hv
  refine ⟨fields, ?_, hget⟩
  rw [heq, if_pos]
  rw [optionHasAnyField_iff]
  exact ⟨f, by rw [Field.IsSet, hget]; exact hset⟩

/-- Scoping is idempotent, and its output is in scope. -/
theorem scopedLoginOption_idem (hlim : connType ≠ .remote)
    (h : (scopedLoginOption connType o).1 = some s) :
    scopedLoginOption connType s = (some s, none) := by
  have hcut := cut_of_scopedLoginOption hlim h
  have hsnd : (scopedLoginOption connType s).2 = none :=
    scopedLoginOption_snd (fun f hset => (hcut.of_isSet hset).1) hcut.valid
  have hany : ∃ f : Field, f.IsSet s := by
    obtain ⟨fields, -, heq⟩ := scopedLoginOption_fst (o := o) hlim
    rw [heq, Option.ite_none_right_eq_some, Option.some_inj] at h
    rw [← optionHasAnyField_iff]
    exact h.2 ▸ h.1
  obtain ⟨f, hset⟩ := hany
  obtain ⟨s', hfst, -⟩ :=
    scopedLoginOption_of_isSet hlim (hcut.of_isSet hset).1 (hcut.valid f) hset
  obtain rfl : s' = s := hcut.idem (cut_of_scopedLoginOption hlim hfst)
  exact Prod.ext hfst hsnd

end Cut

/-! ## Updates of a session -/

section Updates

variable {windows : Bool} {connType : AuthConnType} {o : OptionMessage} {s : Session} {f : Field}

/-- A later message of a limited session is scoped as its login options are. -/
theorem onOption_eq (hlim : connType ≠ .remote) (htype : s.authedConnType = some connType) :
    s.onOption o =
      match (scopedLoginOption connType o).1 with
      | some passed => s.update connType o passed
      | none => s := by
  unfold Session.onOption Session.scopedUpdateOptionMessage
  cases connType with
  | remote => exact absurd rfl hlim
  | viewCamera | terminal | fileTransfer | portForward => simp [htype, scopedLoginOption]

/-- The updates of limited sessions are messages cut down to the scope of the session. -/
def Session.Scoped (s : Session) : Prop :=
  ∀ u ∈ s.updates, u.connType ≠ .remote → Cut u.connType u.peer u.passed

theorem scoped_update {passed : OptionMessage} (h : s.Scoped)
    (hcut : connType ≠ .remote → Cut connType o passed) : (s.update connType o passed).Scoped := by
  intro u hu
  rcases List.mem_append.mp hu with hu | hu
  · exact h u hu
  · obtain rfl := List.mem_singleton.mp hu
    exact hcut

theorem scoped_onOption (h : s.Scoped) : (s.onOption o).Scoped := by
  cases htype : s.authedConnType with
  | none => simpa [Session.onOption, htype] using h
  | some connType =>
    by_cases hlim : connType = .remote
    · simp only [Session.onOption, htype, hlim, if_true]
      exact scoped_update h (absurd rfl)
    · rw [onOption_eq hlim htype]
      cases hfst : (scopedLoginOption connType o).1 with
      | none => exact h
      | some passed => exact scoped_update h fun _ => cut_of_scopedLoginOption hlim hfst

theorem scoped_updateScopedLoginOptions (h : s.Scoped) : s.updateScopedLoginOptions.Scoped := by
  unfold Session.updateScopedLoginOptions
  cases s.optionsInLogin with
  | none => exact h
  | some option =>
    cases s.authedConnType with
    | none => exact h
    | some connType =>
      cases hfst : (scopedLoginOption connType option).1 with
      | none =>
        simp only [hfst]
        exact h
      | some passed =>
        simp only [hfst]
        exact scoped_update h fun hlim => cut_of_scopedLoginOption hlim hfst

theorem scoped_step (e : SessionEvent) (h : s.Scoped) : (s.step windows e).Scoped := by
  cases e with
  | login option | switchSides option =>
    rw [Session.step]
    split
    · exact h
    · exact h
  | authorize connType =>
    rw [Session.step]
    split
    · exact h
    · exact scoped_updateScopedLoginOptions h
  | message msg =>
    by_cases hdrop : (!s.authorized) = true ∨ (s.scopeViolation windows msg).isSome
    · simpa only [Session.step, if_pos hdrop] using h
    · simp only [Session.step, if_neg hdrop]
      split
      · exact scoped_onOption h
      · exact h

theorem scoped_run (es : List SessionEvent) : (run (Session.step windows) {} es).Scoped := by
  have hes : Allowed (Session.step windows) (fun _ _ => True) {} es :=
    allowed_of_forall (fun _ _ => trivial) _ es
  have hnew : Session.Scoped {} := fun u hu => absurd hu List.not_mem_nil
  exact run_keeps (fun s e h _ => scoped_step e h) hnew hes

/-- A valid field of the scope survives the login. -/
theorem survives_login (hlim : connType ≠ .remote) (hf : f ∈ Field.scope connType)
    (hv : f.Valid o) (hset : f.IsSet o) (hauth : s.authorized = false)
    (hoption : s.optionsInLogin = some o) :
    ∃ passed, (s.step windows (.authorize connType)).updates =
      s.updates ++ [⟨connType, o, passed⟩] ∧ f.get passed = f.get o := by
  obtain ⟨passed, hfst, hget⟩ := scopedLoginOption_of_isSet hlim hf hv hset
  refine ⟨passed, ?_, hget⟩
  simp [Session.step, hauth, Session.updateScopedLoginOptions, hoption, hfst, Session.update]

/-- A valid field of the scope survives in a later message. -/
theorem survives_message (hlim : connType ≠ .remote) (hf : f ∈ Field.scope connType)
    (hv : f.Valid o) (hset : f.IsSet o) (hauth : s.authorized = true)
    (htype : s.authedConnType = some connType)
    (haccept : authorizedMessageScopeViolation windows connType (.misc (.option o)) = none) :
    ∃ passed, (s.step windows (.message (.misc (.option o)))).updates =
      s.updates ++ [⟨connType, o, passed⟩] ∧ f.get passed = f.get o := by
  obtain ⟨passed, hfst, hget⟩ := scopedLoginOption_of_isSet hlim hf hv hset
  refine ⟨passed, ?_, hget⟩
  have hstep : s.step windows (.message (.misc (.option o))) = s.onOption o := by
    simp [Session.step, hauth, Session.scopeViolation, htype, haccept]
  rw [hstep, onOption_eq hlim htype, hfst]
  rfl

/-- The output of the scoping is accepted as a later message. -/
theorem accepts_scoped {p : OptionMessage} (hlim : connType ≠ .remote)
    (h : (scopedLoginOption connType o).1 = some p) :
    authorizedMessageScopeViolation windows connType (.misc (.option p)) = none := by
  have hsnd : (scopedLoginOption connType p).2 = none := by
    rw [scopedLoginOption_idem hlim h]
  cases connType with
  | remote => exact absurd rfl hlim
  | viewCamera =>
    have hscoped : isViewCameraScopedMessage windows (.misc (.option p)) = true :=
      Option.isNone_iff_eq_none.mpr hsnd
    simp [authorizedMessageScopeViolation, hscoped]
  | terminal =>
    have hscoped : isTerminalScopedMessage (.misc (.option p)) = true :=
      Option.isNone_iff_eq_none.mpr hsnd
    simp [authorizedMessageScopeViolation, hscoped]
  | fileTransfer | portForward => cases h

end Updates

/-- Whatever a peer sends, at login and afterwards, each option message that a limited session
acts on sets fields of its scope only, with the values of the peer; scoping is idempotent and its
output is in scope; and the valid fields of the scope reach the host, at login and in every later
message that is accepted. -/
theorem limited_options_scoped (windows : Bool) (connType : AuthConnType)
    (hlim : connType ≠ .remote) :
    (∀ (es : List SessionEvent) (u : Update) (f : Field),
      u ∈ (run (Session.step windows) {} es).updates → u.connType = connType →
      f.IsSet u.passed → f ∈ Field.scope connType ∧ f.get u.passed = f.get u.peer) ∧
    (∀ o p : OptionMessage, (scopedLoginOption connType o).1 = some p →
      scopedLoginOption connType p = (some p, none) ∧
      authorizedMessageScopeViolation windows connType (.misc (.option p)) = none) ∧
    (∀ (o : OptionMessage) (f : Field), f ∈ Field.scope connType → f.Valid o → f.IsSet o →
      (∀ s : Session, s.authorized = false → s.optionsInLogin = some o →
        ∃ passed, (s.step windows (.authorize connType)).updates =
          s.updates ++ [⟨connType, o, passed⟩] ∧ f.get passed = f.get o) ∧
      (∀ s : Session, s.authorized = true → s.authedConnType = some connType →
        authorizedMessageScopeViolation windows connType (.misc (.option o)) = none →
        ∃ passed, (s.step windows (.message (.misc (.option o)))).updates =
          s.updates ++ [⟨connType, o, passed⟩] ∧ f.get passed = f.get o)) := by
  refine ⟨?_, ?_, ?_⟩
  · intro es u f hu htype hset
    subst htype
    obtain ⟨hscope, -, hget⟩ := (scoped_run es u hu hlim).of_isSet hset
    exact ⟨hscope, hget⟩
  · intro o p h
    exact ⟨scopedLoginOption_idem hlim h, accepts_scoped hlim h⟩
  · intro o f hf hv hset
    constructor
    · intro s hauth hoption
      exact survives_login hlim hf hv hset hauth hoption
    · intro s hauth htype haccept
      exact survives_message hlim hf hv hset hauth htype haccept

theorem limited_options_scoped_camera :
    ∃ passed,
      (({ optionsInLogin := some { imageQuality := 9, privacyMode := 2, customFps := 30 } } :
        Session).step true (.authorize .viewCamera)).updates =
        [⟨.viewCamera, { imageQuality := 9, privacyMode := 2, customFps := 30 }, passed⟩] ∧
      Field.customFps.get passed = .number 30 :=
  ((limited_options_scoped true .viewCamera (by simp)).2.2
    { imageQuality := 9, privacyMode := 2, customFps := 30 } .customFps (by decide) (by decide)
    (by simp [Field.IsSet, Field.get])).1
    { optionsInLogin := some { imageQuality := 9, privacyMode := 2, customFps := 30 } } rfl rfl

/-! ## What the host does -/

/-- The host that options are set on: its platform, the permissions of the session, and whether
the peer is older than the messages for the privacy mode. -/
structure Host where
  desktop : Bool
  fileCopyPaste : Bool
  keyboard : Bool
  blockInput : Bool
  peerBefore124 : Bool
  deriving DecidableEq, Repr

inductive Effect where
  | userImageQuality (quality : Int)
  | userCustomFps (fps : Int)
  | encoderUpdate (decoding : SupportedDecoding)
  | flag (field : Field) (on : Bool)
  | privacyMode (on : Bool)
  | blockInput (on : Bool)
  | blockInputFailed (on : Bool)
  | terminalPersistence (on : Bool)
  deriving DecidableEq, Repr

/-- The fields that an effect is about. -/
def Effect.fields : Effect → List Field
  | .userImageQuality _ => [.imageQuality, .customImageQuality]
  | .userCustomFps _ => [.customFps]
  | .encoderUpdate _ => [.supportedDecoding]
  | .flag field _ => [field]
  | .privacyMode _ => [.privacyMode]
  | .blockInput _ | .blockInputFailed _ => [.blockInput]
  | .terminalPersistence _ => [.terminalPersistent]

def imageQualityEffect (o : OptionMessage) : List Effect :=
  match ImageQuality.ofInt o.imageQuality with
  | none => []
  | some .notSet =>
    if 0 < o.customImageQuality then [.userImageQuality o.customImageQuality] else []
  | some q => [.userImageQuality q.toInt]

def boolEffect (value : Int) (effect : Bool → Effect) : List Effect :=
  match BoolOption.ofInt value with
  | some .yes => [effect true]
  | some .no => [effect false]
  | some .notSet | none => []

def updateOptions (host : Host) (o : OptionMessage) : List Effect :=
  imageQualityEffect o
    ++ (if 0 < o.customFps then [.userCustomFps o.customFps] else [])
    ++ (o.supportedDecoding.map Effect.encoderUpdate).toList
    ++ boolEffect o.lockAfterSessionEnd (.flag .lockAfterSessionEnd)
    ++ (if host.desktop then
        boolEffect o.showRemoteCursor (.flag .showRemoteCursor)
          ++ boolEffect o.followRemoteCursor (.flag .followRemoteCursor)
      else [])
    ++ boolEffect o.followRemoteWindow (.flag .followRemoteWindow)
    ++ boolEffect o.disableAudio (.flag .disableAudio)
    ++ (if host.fileCopyPaste then boolEffect o.enableFileTransfer (.flag .enableFileTransfer)
      else [])
    ++ boolEffect o.disableClipboard (.flag .disableClipboard)
    ++ boolEffect o.disableKeyboard (.flag .disableKeyboard)
    ++ (if host.peerBefore124 && host.keyboard then boolEffect o.privacyMode .privacyMode else [])
    ++ boolEffect o.blockInput
        (if host.keyboard && host.blockInput then .blockInput else .blockInputFailed)
    ++ (if host.desktop then
        boolEffect o.terminalPersistent .terminalPersistence
          ++ boolEffect o.showMyCursor (.flag .showMyCursor)
      else [])

section Effects

variable {host : Host} {o : OptionMessage} {e : Effect} {windows : Bool}

theorem mem_imageQualityEffect (h : e ∈ imageQualityEffect o) :
    ∃ f ∈ e.fields, f.IsSet o := by
  unfold imageQualityEffect at h
  split at h
  case h_1 => cases h
  case h_2 =>
    split at h
    case isTrue hpos =>
      obtain rfl := List.mem_singleton.mp h
      exact ⟨.customImageQuality, by simp [Effect.fields],
        by simpa [Field.IsSet, Field.get] using hpos.ne'⟩
    case isFalse => cases h
  case h_3 q hne heq =>
    obtain rfl := List.mem_singleton.mp h
    refine ⟨.imageQuality, by simp [Effect.fields], ?_⟩
    have hset : o.imageQuality ≠ 0 := by
      intro hzero
      rw [imageQuality_ofInt_eq.mpr hzero, Option.some_inj] at heq
      exact hne heq.symm
    simpa [Field.IsSet, Field.get] using hset

theorem mem_boolEffect {value : Int} {effect : Bool → Effect} (h : e ∈ boolEffect value effect) :
    value ≠ 0 ∧ ∃ on, e = effect on := by
  have hne : value ≠ 0 := by
    rintro rfl
    cases h
  unfold boolEffect at h
  split at h
  · exact ⟨hne, true, List.mem_singleton.mp h⟩
  · exact ⟨hne, false, List.mem_singleton.mp h⟩
  · cases h
  · cases h

/-- The host acts on fields that are set, and on no others. -/
theorem updateOptions_isSet (h : e ∈ updateOptions host o) : ∃ f ∈ e.fields, f.IsSet o := by
  have hbool : ∀ (f : Field) (value : Int) (effect : Bool → Effect),
      f.get o = .number value → f.get {} = .number 0 → (∀ on, f ∈ (effect on).fields) →
      e ∈ boolEffect value effect → ∃ f ∈ e.fields, f.IsSet o := by
    intro f value effect hget hempty hfields he
    obtain ⟨hne, on, rfl⟩ := mem_boolEffect he
    exact ⟨f, hfields on, by simpa [Field.IsSet, hget, hempty] using hne⟩
  simp only [updateOptions, List.mem_append, List.mem_ite_nil_right, Option.mem_toList,
    or_assoc] at h
  rcases h with h | ⟨hfps, h⟩ | h | h | ⟨-, h | h⟩ | h | h | ⟨-, h⟩ | h | h | ⟨-, h⟩ | h |
    ⟨-, h | h⟩
  · exact mem_imageQualityEffect h
  · obtain rfl := List.mem_singleton.mp h
    exact ⟨.customFps, List.mem_singleton_self _,
      by simpa [Field.IsSet, Field.get] using hfps.ne'⟩
  · obtain ⟨d, hd, rfl⟩ := Option.map_eq_some_iff.mp h
    exact ⟨.supportedDecoding, List.mem_singleton_self _, by simp [Field.IsSet, Field.get, hd]⟩
  · exact hbool .lockAfterSessionEnd _ _ rfl rfl (fun _ => List.mem_singleton_self _) h
  · exact hbool .showRemoteCursor _ _ rfl rfl (fun _ => List.mem_singleton_self _) h
  · exact hbool .followRemoteCursor _ _ rfl rfl (fun _ => List.mem_singleton_self _) h
  · exact hbool .followRemoteWindow _ _ rfl rfl (fun _ => List.mem_singleton_self _) h
  · exact hbool .disableAudio _ _ rfl rfl (fun _ => List.mem_singleton_self _) h
  · exact hbool .enableFileTransfer _ _ rfl rfl (fun _ => List.mem_singleton_self _) h
  · exact hbool .disableClipboard _ _ rfl rfl (fun _ => List.mem_singleton_self _) h
  · exact hbool .disableKeyboard _ _ rfl rfl (fun _ => List.mem_singleton_self _) h
  · exact hbool .privacyMode _ _ rfl rfl (fun _ => List.mem_singleton_self _) h
  · refine hbool .blockInput _ _ rfl rfl (fun _ => ?_) h
    split <;> exact List.mem_singleton_self _
  · exact hbool .terminalPersistent _ _ rfl rfl (fun _ => List.mem_singleton_self _) h
  · exact hbool .showMyCursor _ _ rfl rfl (fun _ => List.mem_singleton_self _) h

/-- What the host does for a limited session is about the scope of the session. -/
theorem effects_of_run (es : List SessionEvent) {u : Update}
    (hu : u ∈ (run (Session.step windows) {} es).updates) (hlim : u.connType ≠ .remote)
    (h : e ∈ updateOptions host u.passed) : ∃ f ∈ e.fields, f ∈ Field.scope u.connType := by
  obtain ⟨f, hf, hset⟩ := updateOptions_isSet h
  exact ⟨f, hf, ((scoped_run es u hu hlim).of_isSet hset).1⟩

end Effects

end MDesk.OptionScope
