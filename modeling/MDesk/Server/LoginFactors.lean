import MDesk.Core.Base64
import MDesk.Core.Table
import MDesk.Core.Utf8

/-!
# What a login is checked by

The passwords of a host and its registered remote users, the recent sessions, and the trusted
devices, as one login request is checked by them.
-/

namespace MDesk.HostLogin

open MDesk.Core

/-- What a login request asks for, beside the desktop. -/
inductive LoginUnion where
  | fileTransfer (dir : String) (showHidden : Bool)
  | portForward (host : String) (port : Int)
  | viewCamera
  | terminal (serviceId : String)
  deriving DecidableEq, Repr

/-- The options of a login request that the login reads. -/
structure OptionMessage where
  terminalPersistent : Bool := false
  deriving DecidableEq, Repr

structure LoginRequest where
  username : String := ""
  password : List UInt8 := []
  myId : String := ""
  myName : String := ""
  myPlatform : String := ""
  option : Option OptionMessage := none
  union : Option LoginUnion := none
  sessionId : Nat := 0
  version : String := ""
  osUsername : String := ""
  hwid : List UInt8 := []
  deriving DecidableEq, Repr

structure SessionKey where
  peerId : String
  name : String
  sessionId : Nat
  deriving DecidableEq, Repr

/-- A session that a peer may come back to, with the time of its last message. -/
structure Session where
  lastRecvTime : Int
  randomPassword : String := ""
  tfa : Bool := false
  deriving DecidableEq, Repr

structure TrustedDevice where
  hwid : List UInt8
  time : Int
  id : String
  name : String
  platform : String
  deriving DecidableEq, Repr

/-- A registered remote user, with the stored form of the password. -/
structure RegisteredRemoteUser where
  id : String
  connectionPassword : String
  deriving DecidableEq, Repr

inductive ApproveMode where
  | both
  | password
  | click
  deriving DecidableEq, Repr

inductive VerificationMethod where
  | onlyUseTemporaryPassword
  | onlyUsePermanentPassword
  | useBothPasswords
  deriving DecidableEq, Repr

inductive AccessAuthMethod where
  | registeredRemoteUser
  | permanentPassword
  | temporaryPassword
  deriving DecidableEq, Repr

/-- What a login needs of the libraries: the hash, the check of a code at a time, the first
scheme of the stored passwords, the readers of the registered users and of names, and the
size limit of the stored devices. -/
structure Primitives (τ : Type*) where
  sha256 : List UInt8 → List UInt8
  checkCurrent : τ → Int → String → Option Bool
  decryptStr : String → Option String
  parseUsers : String → Option (List RegisteredRemoteUser)
  trimToLowercase : String → String
  isIpStr : String → Bool
  isDomainPortStr : String → Bool
  devicesFit : List TrustedDevice → Bool

/-- What all connections of a host share: the clock, the configuration and the sessions. -/
structure Host where
  now : Int := 0
  id : String := ""
  enableFileTransfer : Bool := true
  enableCamera : Bool := true
  enableTerminal : Bool := true
  enableTunnel : Bool := true
  inPrivacyMode : Bool := false
  headless : Bool := false
  runningPortable : Bool := false
  approveMode : ApproveMode := .both
  verificationMethod : VerificationMethod := .useBothPasswords
  temporaryPassword : String := ""
  permanentPassword : String := ""
  registeredRemoteUsers : String := ""
  enableTrustedDevices : Bool := true
  trustedDevices : List TrustedDevice := []
  sessions : Table SessionKey Session := ∅
  switchSidesUuid : Table String (Int × List UInt8) := ∅

/-- How long a session stays recent, in milliseconds. -/
def sessionTimeout : Int := 30000

/-- How long a device is trusted, in milliseconds. -/
def days90 : Int := 90 * 24 * 60 * 60 * 1000

def TrustedDevice.outdate (d : TrustedDevice) (now : Int) : Bool := decide (d.time + days90 < now)

/-- A device answers to the four fields of a request. -/
def TrustedDevice.Matches (d : TrustedDevice) (lr : LoginRequest) : Prop :=
  d.hwid = lr.hwid ∧ d.id = lr.myId ∧ d.name = lr.myName ∧ d.platform = lr.myPlatform

instance (d : TrustedDevice) (lr : LoginRequest) : Decidable (d.Matches lr) :=
  inferInstanceAs (Decidable (_ ∧ _))

def LoginRequest.sessionKey (lr : LoginRequest) : SessionKey where
  peerId := lr.myId
  name := lr.myName
  sessionId := lr.sessionId

def requiresManualApproval (mode : ApproveMode) (hasValidPassword : Bool) : Bool :=
  mode = .click || mode = .both && !hasValidPassword

namespace Host

variable (host : Host)

def temporaryEnabled : Bool := host.verificationMethod ≠ .onlyUsePermanentPassword

def permanentEnabled : Bool := host.verificationMethod ≠ .onlyUseTemporaryPassword

def hasValidPassword : Bool :=
  host.temporaryEnabled && host.temporaryPassword ≠ "" ||
    host.permanentEnabled && host.permanentPassword ≠ ""

/-- The sessions that are still recent. -/
def retainSessions : Host :=
  { host with
    sessions := host.sessions.retain fun _ s => host.now - s.lastRecvTime < sessionTimeout }

/-- A password that has been accepted once is kept with its session. -/
def updateOrInsertSession (key : SessionKey) (password : String) (tfa : Bool) : Host :=
  { host with
    sessions := host.sessions.insert key
      { lastRecvTime := ((host.sessions.get key).map Session.lastRecvTime).getD host.now
        randomPassword := password
        tfa := tfa } }

/-- A session has passed the second factor. -/
def setSession2fa (key : SessionKey) : Host :=
  { host with
    sessions := host.sessions.insert key
      { (host.sessions.get key).getD { lastRecvTime := host.now } with tfa := true } }

/-- A device takes the place of the one with its hwid. -/
def addTrustedDevice (fit : List TrustedDevice → Bool) (device : TrustedDevice) : Host :=
  let devices := (host.trustedDevices.filter (·.hwid ≠ device.hwid) ++ [device]).filter
    fun d => !d.outdate host.now
  if fit devices then { host with trustedDevices := devices } else host

/-- The device that lets a request pass without the second factor: the first with its hwid. -/
def bypasses (lr : LoginRequest) : Bool :=
  lr.hwid ≠ [] && host.enableTrustedDevices &&
    match host.trustedDevices.find? (·.hwid = lr.hwid) with
    | some d => !d.outdate host.now && decide (d.Matches lr)
    | none => false

/-- A request matches a device that is trusted and not outdated. -/
def Trusts (lr : LoginRequest) : Prop :=
  ∃ d ∈ host.trustedDevices, d.outdate host.now = false ∧ d.Matches lr

instance (lr : LoginRequest) : Decidable (host.Trusts lr) :=
  inferInstanceAs (Decidable (∃ d ∈ _, _))

/-- The session of a request is recent and has passed the second factor. -/
def RecentTfa (lr : LoginRequest) : Prop :=
  (host.retainSessions.sessions.get lr.sessionKey).any Session.tfa = true

instance (lr : LoginRequest) : Decidable (host.RecentTfa lr) := inferInstanceAs (Decidable (_ = _))

variable {host} {lr : LoginRequest}

/-- The device that lets a request pass matches it. -/
theorem trusts_of_bypasses (h : host.bypasses lr = true) : host.Trusts lr := by
  unfold bypasses at h
  rw [Bool.and_eq_true] at h
  obtain ⟨-, h⟩ := h
  cases hfind : host.trustedDevices.find? (·.hwid = lr.hwid) with
  | none =>
    rw [hfind] at h
    cases h
  | some d =>
    rw [hfind, Bool.and_eq_true, Bool.not_eq_true', decide_eq_true_eq] at h
    exact ⟨d, List.mem_of_find?_eq_some hfind, h⟩

end Host

section Check

variable {τ : Type*} (P : Primitives τ)

/-- The key of the stored passwords of old. -/
def legacyKey : List UInt8 := utf8Bytes "MDesk2024SecureKey!@#".toList

/-- The characters that a password of old may have. -/
def asciiText (c : Char) : Bool :=
  0x21 ≤ c.toNat && c.toNat ≤ 0x7E || c = ' ' || c = '\t' || c = '\n' || c.toNat = 0x0C || c = '\r'

/-- The stored form of a connection password is read by the first scheme that fits. -/
def decryptConnectionPassword (encrypted : String) : String :=
  if encrypted = "" then ""
  else
    let first :=
      if (utf8Bytes encrypted.toList).length > 2 ∧ encrypted.startsWith "00" then
        P.decryptStr encrypted
      else none
    match first with
    | some decrypted => decrypted
    | none =>
      match base64Decode encrypted.toList with
      | some bytes =>
        let s := utf8Lossy (bytes.mapIdx fun i b => b ^^^ legacyKey.getD (i % legacyKey.length) 0)
        if s.all asciiText then String.ofList s else encrypted
      | none => encrypted

/-- A password is hashed with the salt and then with the challenge of the connection. -/
def validateOnePassword (salt challenge : String) (lr : LoginRequest) (password : String) : Bool :=
  password ≠ "" && P.sha256 (P.sha256 (utf8Bytes password.toList ++ utf8Bytes salt.toList) ++
    utf8Bytes challenge.toList) = lr.password

variable (host : Host) (salt challenge : String) (lr : LoginRequest)

/-- A registered remote user whose id is the name of the peer, by one of the forms of the
connection password. -/
def validateRegisteredRemoteUser : Bool :=
  host.registeredRemoteUsers ≠ "" &&
    match P.parseUsers host.registeredRemoteUsers with
    | none => false
    | some users => users.any fun user =>
        P.trimToLowercase user.id = P.trimToLowercase lr.myName && user.connectionPassword ≠ "" &&
          let decrypted := decryptConnectionPassword P user.connectionPassword
          validateOnePassword P salt challenge lr decrypted ||
            decrypted ≠ user.connectionPassword &&
              validateOnePassword P salt challenge lr user.connectionPassword

/-- The password of a request, with the session that is kept of a temporary password. -/
def validatePassword : Host × Except String AccessAuthMethod :=
  let valid := validateOnePassword P salt challenge lr
  let kept := host.updateOrInsertSession lr.sessionKey host.temporaryPassword false
  if validateRegisteredRemoteUser P host salt challenge lr then (host, .ok .registeredRemoteUser)
  else if host.runningPortable then
    if host.permanentEnabled ∧ host.permanentPassword ≠ "" ∧ valid host.permanentPassword then
      (host, .ok .permanentPassword)
    else if host.temporaryEnabled ∧ valid host.temporaryPassword then
      (kept, .ok .temporaryPassword)
    else
      (host, .error "포터블 모드: 등록 원격자·고정·일회용 비밀번호 모두 실패(또는 해당 방식 미설정)")
  else if host.temporaryEnabled then
    if valid host.temporaryPassword then (kept, .ok .temporaryPassword)
    else (host, .error "설치형+일회용 표시 ON: 제출한 비밀번호가 현재 일회용과 불일치")
  else if host.permanentEnabled then
    if valid host.permanentPassword then (host, .ok .permanentPassword)
    else (host, .error "설치형: 고정 비밀번호가 켜져 있으나 제출한 비밀번호와 불일치")
  else
    (host, .error "설치형: 일회용 표시 OFF·고정 비밀번호 미사용 — 위 등록 원격자 단계만으로는 인증 불가")

/-- A peer comes back to a recent session: by its second factor, or by the password kept. -/
def isRecentSession (tfa : Bool) : Bool :=
  match host.retainSessions.sessions.get lr.sessionKey with
  | some session =>
    lr.password ≠ [] && (tfa && session.tfa ||
      !tfa && validateOnePassword P salt challenge lr session.randomPassword)
  | none => false

variable {P host salt challenge lr}

theorem recentTfa_of_isRecentSession (h : isRecentSession P host salt challenge lr true = true) :
    host.RecentTfa lr := by
  unfold isRecentSession at h
  cases hget : host.retainSessions.sessions.get lr.sessionKey with
  | none =>
    rw [hget] at h
    cases h
  | some session =>
    simp only [hget, Bool.and_eq_true, Bool.true_and, Bool.not_true, Bool.false_and,
      Bool.or_false] at h
    unfold Host.RecentTfa
    rw [hget]
    exact h.2

end Check

end MDesk.HostLogin
