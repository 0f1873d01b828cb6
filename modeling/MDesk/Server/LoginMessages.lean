import MDesk.Config.VersionNumber
import MDesk.Server.LoginFactors
import MDesk.Server.LoginFailures

/-!
# The login of a connection

What the messages of a peer and of the connection manager do to a connection until it is
authorized. The peer may send its messages in any order and as often as it likes; everything
that the connections of a host share may change between two of them.
-/

namespace MDesk.HostLogin

open MDesk.Core

inductive AuthConnType where
  | remote
  | fileTransfer
  | portForward
  | viewCamera
  | terminal
  deriving DecidableEq, Repr

/-- A connection of a host, as far as its login goes. -/
structure Connection (τ : Type*) where
  require2fa : Option τ
  salt : String := ""
  challenge : String := ""
  authorized : Bool := false
  authedConnType : Option AuthConnType := none
  fromSwitch : Bool := false
  lr : LoginRequest := {}
  optionsInLogin : Option OptionMessage := none
  fileTransfer : Option (String × Bool) := none
  portForwardSocket : Bool := false
  portForwardAddress : String := ""
  viewCamera : Bool := false
  terminal : Bool := false
  terminalPersistent : Bool := false
  terminalServiceId : String := ""
  terminalUserToken : Option Bool := none

/-- What has been found of the login request that a connection holds. -/
inductive Finding where
  | password
  | recentSession
  | authorize
  | switchSides
  | trustedDevice
  deriving DecidableEq, Repr

/-- A connection on its host, the errors it has sent, what has been found of the request it
holds, and whether a code of the second factor was right. -/
structure LoginState (τ : Type*) where
  conn : Connection τ
  host : Host
  ended : Bool := false
  sent : List String := []
  found : List Finding := []
  tfaPassed : Bool := false

/-- What the system answers while a message is handled: whether a further attempt is refused,
what comes of a connection to a port, what the desktop and the terminal say. A terminal's user
token is for a service or not. -/
structure Answers where
  refusal : Factor → Option Refusal := fun _ => none
  connects : Bool := true
  desktop : String := ""
  installed : Bool := true
  userToken : Except String (Option Bool) := .ok (some false)
  isServiceSpecifiedUser : Option Bool := none

/-- The messages of a peer. -/
inductive PeerMessage where
  | loginRequest (lr : LoginRequest)
  | auth2fa (code : String) (hwid : List UInt8)
  | switchSidesResponse (uuid : List UInt8) (lr : Option LoginRequest)
  | closeReason
  | other

/-- What happens to a connection: a message of its peer, one of the connection manager, its
end, and a change of what the connections share. -/
inductive LoginEvent where
  | peer (m : PeerMessage) (answers : Answers)
  | authorize
  | leave
  | elsewhere (host : Host)

namespace LoginState

variable {τ : Type*} (P : Primitives τ) (s : LoginState τ)

def sendLoginError (err : String) : LoginState τ := { s with sent := s.sent ++ [err] }

/-- The connection is closed. -/
def close : LoginState τ := { s with ended := true }

/-- Something is found of the request that is held. -/
def find (f : Finding) : LoginState τ := { s with found := f :: s.found }

def isRecentSession (tfa : Bool) : Bool :=
  HostLogin.isRecentSession P s.host s.conn.salt s.conn.challenge s.conn.lr tfa

def connType : AuthConnType :=
  if s.conn.fileTransfer.isSome then .fileTransfer
  else if s.conn.portForwardSocket then .portForward
  else if s.conn.viewCamera then .viewCamera
  else if s.conn.terminal then .terminal
  else .remote

/-- The connection is authorized, or asked for the second factor. -/
def sendLogonResponse : LoginState τ :=
  if s.conn.authorized then s
  else if s.conn.require2fa.isSome then
    let s' := { s with host := s.host.retainSessions }
    if !s.isRecentSession P true ∧ !s.conn.fromSwitch then s'.sendLoginError "2FA Required"
    else
      { s' with conn := { s.conn with
          authorized := true, authedConnType := some s.connType, optionsInLogin := none } }
  else
    { s with conn := { s.conn with
        authorized := true, authedConnType := some s.connType, optionsInLogin := none } }

def resetSessionScopeForLogin : LoginState τ :=
  { s with conn := { s.conn with
      fileTransfer := none, portForwardSocket := false, portForwardAddress := ""
      viewCamera := false, terminal := false, terminalPersistent := false
      terminalServiceId := "", optionsInLogin := none, terminalUserToken := none } }

/-- A request takes the place of the one that is held. -/
def handleLoginRequestWithoutValidation (lr : LoginRequest) : LoginState τ :=
  { s with
    conn := { s.conn with
      lr := lr
      optionsInLogin := lr.option.or s.conn.optionsInLogin
      require2fa := if s.host.bypasses lr then none else s.conn.require2fa }
    found := if s.host.Trusts lr then [.trustedDevice] else [] }

/-- What a request asks for is opened, unless the connection ends here. -/
def openScope (answers : Answers) (lr : LoginRequest) : Except (LoginState τ) (LoginState τ) :=
  match lr.union with
  | some (.fileTransfer dir showHidden) =>
    if !s.host.enableFileTransfer then
      .error (s.sendLoginError "No permission of file transfer").close
    else .ok { s with conn := { s.conn with fileTransfer := some (dir, showHidden) } }
  | some .viewCamera =>
    if !s.host.enableCamera then .error (s.sendLoginError "No permission of viewing camera").close
    else .ok { s with conn := { s.conn with viewCamera := true } }
  | some (.terminal serviceId) =>
    if !s.host.enableTerminal then .error (s.sendLoginError "No permission of terminal").close
    else if lr.osUsername ≠ "" ∧ !answers.installed then
      .error (s.sendLoginError "Supported only in the installed version.").close
    else
      let s := { s with conn := { s.conn with
        terminal := true, terminalServiceId := serviceId
        terminalPersistent := match s.conn.optionsInLogin with
          | some o => o.terminalPersistent
          | none => s.conn.terminalPersistent } }
      match answers.userToken with
      | .error msg => .error (s.sendLoginError msg).close
      | .ok token =>
        let s := { s with conn := { s.conn with terminalUserToken := token } }
        match answers.isServiceSpecifiedUser, token with
        | some isUser, some hasServiceToken =>
          if isUser ≠ hasServiceToken then
            .error (s.sendLoginError "Terminal service user mismatch detected.").close
          else .ok s
        | _, _ => .ok s
  | some (.portForward host port) =>
    if !s.host.enableTunnel then .error (s.sendLoginError "No permission of IP tunneling").close
    else
      let isRdp : Bool := host = "RDP" ∧ port = 0
      let host := if isRdp ∨ host = "" then "localhost" else host
      let addr := s!"{host}:{if isRdp then 3389 else port}"
      let s := { s with conn := { s.conn with portForwardAddress := addr } }
      if answers.connects then .ok { s with conn := { s.conn with portForwardSocket := true } }
      else
        let addr := if isRdp then "RDP" else addr
        .error (s.sendLoginError
          s!"Failed to access remote {addr}, please make sure if it is open").close
  | none =>
    if s.host.inPrivacyMode then
      .error (s.sendLoginError "Someone turns on privacy mode, exit").close
    else .ok s

/-- The first factor of a request: the state in which the logon response is sent, or the one
in which the request is left. -/
def firstFactor (answers : Answers) (lr : LoginRequest) :
    Except (LoginState τ) (LoginState τ) :=
  if answers.desktop ≠ "" ∧ answers.desktop ≠ "Desktop session not ready" then
    .error (s.sendLoginError answers.desktop)
  else if !P.isIpStr lr.username ∧ !P.isDomainPortStr lr.username ∧ lr.username ≠ s.host.id then
    .error (s.sendLoginError "Offline").close
  else if requiresManualApproval s.host.approveMode s.host.hasValidPassword then
    .error (if getVersionNumber lr.version ≥ getVersionNumber "1.2.0" then
      s.sendLoginError "No Password Access" else s)
  else
    let recent := s.isRecentSession P false
    let s := { s with host := s.host.retainSessions }
    if recent then
      if answers.desktop = "" then .ok (s.find .recentSession)
      else .error ((s.find .recentSession).sendLoginError answers.desktop)
    else if lr.password = [] then
      .error (if answers.desktop = "" then
        if s.host.headless then s.sendLoginError "Empty Password" else s
      else s.sendLoginError "Desktop session not ready, password empty")
    else
      match answers.refusal .password with
      | some r => .error (s.sendLoginError r.error)
      | none =>
        match validatePassword P s.host s.conn.salt s.conn.challenge s.conn.lr with
        | (host, .ok _) =>
          let s := { s with host := host }.find .password
          if answers.desktop = "" then .ok s else .error (s.sendLoginError answers.desktop)
        | (host, .error _) =>
          let s := { s with host := host }
          .error (if answers.desktop = "" then s.sendLoginError "Wrong Password"
            else s.sendLoginError "Desktop session not ready, password wrong")

/-- A login request, which begins by closing what the one before has opened. -/
def onLoginRequest (answers : Answers) (lr : LoginRequest) : LoginState τ :=
  match (s.resetSessionScopeForLogin.handleLoginRequestWithoutValidation lr).openScope
      answers lr with
  | .error s => s
  | .ok s =>
    match s.firstFactor P answers lr with
    | .error s => s
    | .ok s => s.sendLogonResponse P

/-- A code that is right answers for the second factor. -/
def takes2fa (answers : Answers) (code : String) : Bool :=
  (answers.refusal .totp).isNone &&
    match s.conn.require2fa with
    | some totp => P.checkCurrent totp s.host.now code = some true
    | none => false

/-- A code of the second factor. -/
def onAuth2fa (answers : Answers) (code : String) (hwid : List UInt8) : LoginState τ :=
  match answers.refusal .totp with
  | some r => s.sendLoginError r.error
  | none =>
    match s.conn.require2fa with
    | none => s
    | some totp =>
      match P.checkCurrent totp s.host.now code with
      | none => s
      | some false => s.sendLoginError "Wrong 2FA Code"
      | some true =>
        let s := { s with
          conn := { s.conn with require2fa := none }
          host := s.host.setSession2fa s.conn.lr.sessionKey
          tfaPassed := true }.sendLogonResponse P
        if hwid ≠ [] ∧ s.host.enableTrustedDevices then
          { s with host := s.host.addTrustedDevice P.devicesFit {
              hwid := hwid, time := s.host.now, id := s.conn.lr.myId
              name := s.conn.lr.myName, platform := s.conn.lr.myPlatform } }
        else s

/-- The other side asks to switch sides, with the uuid it was given. -/
def onSwitchSidesResponse (uuid : List UInt8) (lr : Option LoginRequest) : LoginState τ :=
  match lr with
  | none => s
  | some lr =>
    let s := s.handleLoginRequestWithoutValidation lr
    let uuids := s.host.switchSidesUuid.retain fun _ v => s.host.now - v.1 < 10000
    let s := { s with host := { s.host with switchSidesUuid := uuids.remove lr.myId } }
    match uuids.get lr.myId with
    | some (_, uuidOld) =>
      if uuid.length = 16 ∧ uuid = uuidOld then
        LoginState.sendLogonResponse P
          ({ s with conn := { s.conn with fromSwitch := true } }.find .switchSides)
      else s
    | none => s

def onMessage (m : PeerMessage) (answers : Answers) : LoginState τ :=
  match m with
  | .closeReason => s.close
  | .loginRequest lr => if s.conn.authorized then s else s.onLoginRequest P answers lr
  | .switchSidesResponse uuid lr =>
    if s.conn.authorized then s else s.onSwitchSidesResponse P uuid lr
  | .auth2fa code hwid =>
    if s.conn.authorized ∧ s.conn.authedConnType ≠ some .remote then s
    else s.onAuth2fa P answers code hwid
  | .other => s

/-- The user lets the connection in. -/
def onAuthorize : LoginState τ :=
  let s := LoginState.sendLogonResponse P
    ({ s with conn := { s.conn with require2fa := none } }.find .authorize)
  if s.conn.portForwardSocket then s.close else s

def step (s : LoginState τ) (e : LoginEvent) : LoginState τ :=
  match e with
  | .elsewhere host => { s with host := host }
  | .peer m answers => if s.ended then s else s.onMessage P m answers
  | .authorize => if s.ended then s else s.onAuthorize P
  | .leave => s.close

end LoginState

end MDesk.HostLogin
