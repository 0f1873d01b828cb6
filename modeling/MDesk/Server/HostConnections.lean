import MDesk.Server.LoginRequired

/-!
# The connections of a host

All connections of a host share its sessions, by which a peer comes back without its password or
its second factor. What the sessions remember has been shown on one of the connections.
-/

namespace MDesk.HostLogin

open MDesk.Core

variable {τ : Type*} (P : Primitives τ)

/-- A host with its connections. Each of them brings its view of the host up to date when it
goes on. -/
structure HostState (τ : Type*) where
  host : Host
  conns : Table Nat (LoginState τ) := ∅

/-- What happens on a host: connections come in, go on and end, and the configuration and the
clock change. -/
inductive HostEvent (τ : Type*) where
  | accept (c : Nat) (require2fa : Option τ) (salt challenge : String)
  | peer (c : Nat) (m : PeerMessage) (answers : Answers)
  | authorize (c : Nat)
  | leave (c : Nat)
  | drop (c : Nat)
  | received (c : Nat)
  | checkRemoveSession (c : Nat)
  | configure (host : Host)

namespace Host

variable (host : Host)

/-- A message of a connection keeps its session recent. -/
def receive (key : SessionKey) : Host :=
  { host with
    sessions := host.sessions.modify key fun s => { s with lastRecvTime := host.now } }

/-- What the sessions remember: who has shown a password, and who a code. -/
def Remembers (shown : SessionKey → String → Prop) (coded : SessionKey → Prop) : Prop :=
  ∀ key s, host.sessions.get key = some s →
    (s.randomPassword ≠ "" → shown key s.randomPassword) ∧ (s.tfa = true → coded key)

variable {host} {shown : SessionKey → String → Prop} {coded : SessionKey → Prop} {key : SessionKey}

theorem Remembers.mono {shown' : SessionKey → String → Prop} {coded' : SessionKey → Prop}
    (h : host.Remembers shown coded) (hshown : ∀ key pw, shown key pw → shown' key pw)
    (hcoded : ∀ key, coded key → coded' key) : host.Remembers shown' coded' := by
  intro key s hget
  obtain ⟨hpassword, htfa⟩ := h key s hget
  exact ⟨fun hne => hshown key _ (hpassword hne), fun ht => hcoded key (htfa ht)⟩

/-- Only the sessions matter, and they may be fewer. -/
theorem Remembers.of_le {host' : Host} (h : host.Remembers shown coded)
    (hle : ∀ key s, host'.sessions.get key = some s → host.sessions.get key = some s) :
    host'.Remembers shown coded :=
  fun key s hget => h key s (hle key s hget)

theorem Remembers.retainSessions (h : host.Remembers shown coded) :
    host.retainSessions.Remembers shown coded :=
  h.of_le fun _ _ hget => (Table.get_retain_eq_some_iff.mp hget).1

theorem Remembers.receive (h : host.Remembers shown coded) (key : SessionKey) :
    (host.receive key).Remembers shown coded := by
  intro key' s hget
  unfold Host.receive at hget
  dsimp only at hget
  rw [Table.get_modify] at hget
  split_ifs at hget with hkey
  · obtain ⟨old, hold, rfl⟩ := Option.map_eq_some_iff.mp hget
    rw [hkey]
    exact h key old hold
  · exact h key' s hget

/-- A password is kept that has been shown. -/
theorem Remembers.updateOrInsertSession (h : host.Remembers shown coded) {password : String}
    (hshown : shown key password) :
    (host.updateOrInsertSession key password false).Remembers shown coded := by
  intro key' s hget
  unfold Host.updateOrInsertSession at hget
  dsimp only at hget
  rw [Table.get_insert] at hget
  split_ifs at hget with hkey
  · cases hget
    rw [hkey]
    exact ⟨fun _ => hshown, fun htfa => by cases htfa⟩
  · exact h key' s hget

/-- A code that has been shown is kept. -/
theorem Remembers.setSession2fa (h : host.Remembers shown coded) (hcoded : coded key) :
    (host.setSession2fa key).Remembers shown coded := by
  intro key' s hget
  unfold Host.setSession2fa at hget
  dsimp only at hget
  rw [Table.get_insert] at hget
  split_ifs at hget with hkey
  · cases hget
    rw [hkey]
    refine ⟨fun hne => ?_, fun _ => hcoded⟩
    cases hold : host.sessions.get key with
    | none =>
      rw [hold] at hne
      exact absurd rfl hne
    | some old =>
      rw [hold] at hne
      exact (h key old hold).1 hne
  · exact h key' s hget

theorem Remembers.addTrustedDevice (h : host.Remembers shown coded)
    (fit : List TrustedDevice → Bool) (device : TrustedDevice) :
    (host.addTrustedDevice fit device).Remembers shown coded := by
  unfold Host.addTrustedDevice
  dsimp only
  split_ifs <;> exact h

end Host

namespace LoginState

/-- The event shows the one-time password of the host. -/
def Shows (s : LoginState τ) (e : LoginEvent) (key : SessionKey) (pw : String) : Prop :=
  ∃ lr answers, e = .peer (.loginRequest lr) answers ∧ lr.sessionKey = key ∧
    s.host.temporaryPassword = pw ∧ s.conn.authorized = false ∧
    validateOnePassword P s.conn.salt s.conn.challenge lr pw = true

/-- The event shows a right code. -/
def Codes (s : LoginState τ) (e : LoginEvent) (key : SessionKey) : Prop :=
  ∃ code hwid answers, e = .peer (.auth2fa code hwid) answers ∧ s.conn.lr.sessionKey = key ∧
    s.takes2fa P answers code = true

/-- A connection whose request has been found to come back has a session with its password. -/
def Backed (shown : SessionKey → String → Prop) (s : LoginState τ) : Prop :=
  .recentSession ∈ s.found → ∃ pw, shown s.conn.lr.sessionKey pw ∧
    validateOnePassword P s.conn.salt s.conn.challenge s.conn.lr pw = true

variable {P} {s s' : LoginState τ} {shown : SessionKey → String → Prop} {coded : SessionKey → Prop}
  {answers : Answers} {lr : LoginRequest}

/-- What the sessions have to do with. -/
structure SameLogin (s s' : LoginState τ) : Prop where
  host : s'.host = s.host
  found : s'.found = s.found
  lr : s'.conn.lr = s.conn.lr
  salt : s'.conn.salt = s.conn.salt
  challenge : s'.conn.challenge = s.conn.challenge

theorem sameLogin_openScope (s : LoginState τ) (answers : Answers) (lr : LoginRequest) :
    SameLogin s (behind (s.openScope answers lr)) := by
  unfold openScope
  cases lr.union with
  | none =>
    dsimp only
    split_ifs <;> exact ⟨rfl, rfl, rfl, rfl, rfl⟩
  | some u =>
    cases u with
    | fileTransfer dir showHidden =>
      dsimp only
      split_ifs <;> exact ⟨rfl, rfl, rfl, rfl, rfl⟩
    | viewCamera =>
      dsimp only
      split_ifs <;> exact ⟨rfl, rfl, rfl, rfl, rfl⟩
    | terminal serviceId =>
      dsimp only
      split_ifs
      · exact ⟨rfl, rfl, rfl, rfl, rfl⟩
      · exact ⟨rfl, rfl, rfl, rfl, rfl⟩
      · cases answers.userToken with
        | error msg => exact ⟨rfl, rfl, rfl, rfl, rfl⟩
        | ok token =>
          dsimp only
          split
          · split_ifs <;> exact ⟨rfl, rfl, rfl, rfl, rfl⟩
          · exact ⟨rfl, rfl, rfl, rfl, rfl⟩
    | portForward host port =>
      dsimp only
      split_ifs <;> exact ⟨rfl, rfl, rfl, rfl, rfl⟩

/-- What the sessions remember, and what stands behind what has been found. -/
structure Earned (P : Primitives τ) (shown : SessionKey → String → Prop)
    (coded : SessionKey → Prop) (s : LoginState τ) : Prop where
  host : s.host.Remembers shown coded
  backed : s.Backed P shown

theorem Earned.of_same (h : s.Earned P shown coded) (hsame : SameLogin s s') :
    s'.Earned P shown coded := by
  refine ⟨hsame.host ▸ h.host, ?_⟩
  unfold Backed
  rw [hsame.found, hsame.lr, hsame.salt, hsame.challenge]
  exact h.backed

/-- The host may change alone. -/
theorem Earned.withHost (h : s.Earned P shown coded) {host : Host}
    (hhost : host.Remembers shown coded) : Earned P shown coded { s with host } :=
  ⟨hhost, h.backed⟩

theorem Earned.sendLoginError (h : s.Earned P shown coded) (err : String) :
    (s.sendLoginError err).Earned P shown coded := ⟨h.host, h.backed⟩

theorem Earned.find (h : s.Earned P shown coded) {f : Finding} (hf : f ≠ .recentSession) :
    (s.find f).Earned P shown coded := by
  refine ⟨h.host, fun hin => h.backed ?_⟩
  rcases List.mem_cons.mp hin with heq | hold
  · exact absurd heq.symm hf
  · exact hold

theorem Earned.sendLogonResponse (h : s.Earned P shown coded) :
    (s.sendLogonResponse P).Earned P shown coded := by
  unfold LoginState.sendLogonResponse
  dsimp only
  split_ifs
  · exact h
  · exact ⟨h.host.retainSessions, h.backed⟩
  · exact ⟨h.host.retainSessions, h.backed⟩
  · exact ⟨h.host, h.backed⟩

/-- A new request has not been found to come back. -/
theorem Earned.handle (h : s.Earned P shown coded) (lr : LoginRequest) :
    (s.handleLoginRequestWithoutValidation lr).Earned P shown coded := by
  refine ⟨h.host, fun hin => ?_⟩
  cases found_handle hin

/-- A session lets a peer come back that shows its password again. -/
theorem shown_of_isRecentSession {host : Host} {salt challenge : String}
    (h : host.Remembers shown coded)
    (hrecent : HostLogin.isRecentSession P host salt challenge lr false = true) :
    ∃ pw, shown lr.sessionKey pw ∧ validateOnePassword P salt challenge lr pw = true := by
  unfold HostLogin.isRecentSession at hrecent
  cases hget : host.retainSessions.sessions.get lr.sessionKey with
  | none =>
    rw [hget] at hrecent
    cases hrecent
  | some session =>
    simp only [hget, Bool.and_eq_true, Bool.false_and, Bool.not_false, Bool.true_and,
      Bool.false_or] at hrecent
    have hne : session.randomPassword ≠ "" := by
      have hvalid := hrecent.2
      unfold validateOnePassword at hvalid
      rw [Bool.and_eq_true] at hvalid
      exact of_decide_eq_true hvalid.1
    exact ⟨_, (h.retainSessions _ session hget).1 hne, hrecent.2⟩

/-- The sessions behind the check of a password. -/
theorem remembers_validatePassword {host : Host} {salt challenge : String}
    (h : host.Remembers shown coded)
    (hshown : validateOnePassword P salt challenge lr host.temporaryPassword = true →
      shown lr.sessionKey host.temporaryPassword) :
    (validatePassword P host salt challenge lr).1.Remembers shown coded := by
  unfold validatePassword
  dsimp only
  split_ifs with _ _ _ hportable _ hinstalled
  all_goals try exact h
  · exact h.updateOrInsertSession (hshown hportable.2)
  · exact h.updateOrInsertSession (hshown hinstalled)

/-- The first factor of a request, by its session or its password. -/
theorem Earned.firstFactor (h : s.Earned P shown coded) (answers : Answers) (lr : LoginRequest)
    (hshown : validateOnePassword P s.conn.salt s.conn.challenge s.conn.lr
        s.host.temporaryPassword = true →
      shown s.conn.lr.sessionKey s.host.temporaryPassword) :
    (behind (s.firstFactor P answers lr)).Earned P shown coded := by
  have hretain : Earned P shown coded { s with host := s.host.retainSessions } :=
    h.withHost h.host.retainSessions
  unfold LoginState.firstFactor
  dsimp only
  split
  · exact ⟨h.host, h.backed⟩
  split
  · exact ⟨h.host, h.backed⟩
  split
  · split_ifs <;> exact ⟨h.host, h.backed⟩
  split
  · rename_i hrecent
    have hback := shown_of_isRecentSession h.host hrecent
    split_ifs <;> exact ⟨hretain.host, fun _ => hback⟩
  split
  · split_ifs <;> exact ⟨hretain.host, hretain.backed⟩
  cases answers.refusal .password with
  | some r => exact ⟨hretain.host, hretain.backed⟩
  | none =>
    have hvalidated : (validatePassword P s.host.retainSessions s.conn.salt s.conn.challenge
        s.conn.lr).1.Remembers shown coded := remembers_validatePassword hretain.host hshown
    dsimp only
    split
    · rename_i host method heq
      rw [heq] at hvalidated
      have hfound : Earned P shown coded ({ s with host := host }.find .password) :=
        Earned.find (hretain.withHost hvalidated) (by decide)
      split_ifs <;> exact ⟨hfound.host, hfound.backed⟩
    · rename_i host err heq
      rw [heq] at hvalidated
      split_ifs <;> exact ⟨hvalidated, hretain.backed⟩

theorem Earned.onLoginRequest (h : s.Earned P shown coded) (answers : Answers) (lr : LoginRequest)
    (hshown : validateOnePassword P s.conn.salt s.conn.challenge lr s.host.temporaryPassword =
      true → shown lr.sessionKey s.host.temporaryPassword) :
    (s.onLoginRequest P answers lr).Earned P shown coded := by
  have hreset : s.resetSessionScopeForLogin.Earned P shown coded := ⟨h.host, h.backed⟩
  have hhandled := hreset.handle lr
  have hsame := sameLogin_openScope
    (s.resetSessionScopeForLogin.handleLoginRequestWithoutValidation lr) answers lr
  have hopened := hhandled.of_same hsame
  unfold LoginState.onLoginRequest
  cases hopen : (s.resetSessionScopeForLogin.handleLoginRequestWithoutValidation lr).openScope
      answers lr with
  | error ended =>
    rw [hopen] at hopened
    exact hopened
  | ok opened =>
    rw [hopen] at hopened hsame
    replace hopened : opened.Earned P shown coded := hopened
    have hfirst : (behind (opened.firstFactor P answers lr)).Earned P shown coded := by
      refine Earned.firstFactor hopened answers lr ?_
      have hlr : opened.conn.lr = lr := hsame.lr
      have hsalt : opened.conn.salt = s.conn.salt := hsame.salt
      have hchallenge : opened.conn.challenge = s.conn.challenge := hsame.challenge
      have hhost : opened.host = s.host := hsame.host
      rw [hlr, hsalt, hchallenge, hhost]
      exact hshown
    dsimp only
    cases hpassed : opened.firstFactor P answers lr with
    | error ended =>
      rw [hpassed] at hfirst
      exact hfirst
    | ok passed =>
      rw [hpassed] at hfirst
      exact Earned.sendLogonResponse hfirst

theorem Earned.onAuth2fa (h : s.Earned P shown coded) (answers : Answers) (code : String)
    (hwid : List UInt8) (hcoded : s.takes2fa P answers code = true → coded s.conn.lr.sessionKey) :
    (s.onAuth2fa P answers code hwid).Earned P shown coded := by
  unfold LoginState.onAuth2fa
  cases hrefusal : answers.refusal .totp with
  | some r => exact ⟨h.host, h.backed⟩
  | none =>
    cases h2fa : s.conn.require2fa with
    | none => exact h
    | some totp =>
      dsimp only
      cases hcheck : P.checkCurrent totp s.host.now code with
      | none => exact h
      | some right =>
        cases right with
        | false => exact ⟨h.host, h.backed⟩
        | true =>
          have htakes : s.takes2fa P answers code = true := by
            unfold takes2fa
            rw [hrefusal, h2fa]
            simp [hcheck]
          have hpassed : Earned P shown coded
              ({ s with
                conn := { s.conn with require2fa := none }
                host := s.host.setSession2fa s.conn.lr.sessionKey
                tfaPassed := true } : LoginState τ) :=
            ⟨h.host.setSession2fa (hcoded htakes), h.backed⟩
          have hsent := hpassed.sendLogonResponse
          dsimp only
          split_ifs
          · exact ⟨hsent.host.addTrustedDevice _ _, hsent.backed⟩
          · exact hsent

theorem Earned.onSwitchSidesResponse (h : s.Earned P shown coded) (uuid : List UInt8)
    (lr : Option LoginRequest) : (s.onSwitchSidesResponse P uuid lr).Earned P shown coded := by
  unfold LoginState.onSwitchSidesResponse
  cases lr with
  | none => exact h
  | some lr =>
    have hhandled := h.handle lr
    dsimp only
    split
    · split_ifs
      · refine Earned.sendLogonResponse (Earned.find ?_ (by decide))
        exact ⟨hhandled.host, hhandled.backed⟩
      · exact ⟨hhandled.host, hhandled.backed⟩
    · exact ⟨hhandled.host, hhandled.backed⟩

/-- What one connection does, with what its event shows. -/
theorem Earned.step (h : s.Earned P shown coded) (e : LoginEvent)
    (hhost : ∀ host, e = .elsewhere host → host.Remembers shown coded)
    (hshown : ∀ key pw, s.Shows P e key pw → shown key pw)
    (hcoded : ∀ key, s.Codes P e key → coded key) : (s.step P e).Earned P shown coded := by
  cases e with
  | elsewhere host => exact h.withHost (hhost host rfl)
  | authorize =>
    unfold LoginState.step
    dsimp only
    split_ifs
    · exact h
    · have hsent : Earned P shown coded (LoginState.sendLogonResponse P
          ({ s with conn := { s.conn with require2fa := none } }.find .authorize)) := by
        refine Earned.sendLogonResponse (Earned.find ?_ (by decide))
        exact ⟨h.host, h.backed⟩
      unfold LoginState.onAuthorize
      dsimp only
      split_ifs
      · exact ⟨hsent.host, hsent.backed⟩
      · exact hsent
  | leave => exact ⟨h.host, h.backed⟩
  | peer m answers =>
    unfold LoginState.step
    dsimp only
    split_ifs
    · exact h
    · cases m with
      | closeReason => exact ⟨h.host, h.backed⟩
      | other => exact h
      | loginRequest lr =>
        unfold LoginState.onMessage
        dsimp only
        split_ifs with hauth
        · exact h
        · refine h.onLoginRequest answers lr fun hvalid => hshown _ _ ?_
          exact ⟨lr, answers, rfl, rfl, rfl, Bool.eq_false_iff.mpr hauth, hvalid⟩
      | switchSidesResponse uuid lr =>
        unfold LoginState.onMessage
        dsimp only
        split_ifs
        · exact h
        · exact h.onSwitchSidesResponse uuid lr
      | auth2fa code hwid =>
        unfold LoginState.onMessage
        dsimp only
        split_ifs
        · exact h
        · refine h.onAuth2fa answers code hwid fun htakes => hcoded _ ?_
          exact ⟨code, hwid, answers, rfl, rfl, htakes⟩

end LoginState

namespace HostState

/-- A connection goes on, with the host as it is now. -/
def onConn (s : HostState τ) (c : Nat) (e : LoginEvent) : HostState τ :=
  match s.conns.get c with
  | none => s
  | some x =>
    let x := LoginState.step P { x with host := s.host } e
    { host := x.host, conns := s.conns.insert c x }

/-- A connection is an authorized one to a screen, and has the key. -/
def isRemote (x : LoginState τ) : Bool :=
  x.conn.authorized && decide (x.conn.authedConnType = some .remote)

/-- Another authorized connection to a screen has the key. -/
def anotherRemote (s : HostState τ) (c : Nat) (key : SessionKey) : Bool :=
  s.conns.entries.any fun e =>
    decide (e.1 ≠ c) && decide (e.2.conn.lr.sessionKey = key) && isRemote e.2

/-- `check_remove_session`. -/
def checkRemoveSession (s : HostState τ) (c : Nat) : HostState τ :=
  match s.conns.get c with
  | none => s
  | some x =>
    if isRemote x ∨ ¬ s.anotherRemote c x.conn.lr.sessionKey then
      { s with host := { s.host with sessions := s.host.sessions.remove x.conn.lr.sessionKey } }
    else s

def step (s : HostState τ) : HostEvent τ → HostState τ
  | .accept c require2fa salt challenge =>
    match s.conns.get c with
    | none =>
      { s with conns := s.conns.insert c (LoginState.incoming require2fa salt challenge s.host) }
    | some _ => s
  | .peer c m answers => s.onConn P c (.peer m answers)
  | .authorize c => s.onConn P c .authorize
  | .leave c => s.onConn P c .leave
  | .drop c => { s with conns := s.conns.remove c }
  | .received c =>
    match s.conns.get c with
    | none => s
    | some x =>
      if x.conn.authorized then { s with host := s.host.receive x.conn.lr.sessionKey } else s
  | .checkRemoveSession c => s.checkRemoveSession c
  | .configure host => { s with host := { host with sessions := s.host.sessions } }

/-- A host without sessions and connections. -/
def start (host : Host) : HostState τ := { host := { host with sessions := ∅ } }

/-- An earlier login request with a key has shown the one-time password that the host had. -/
def Shown (host : Host) (es : List (HostEvent τ)) (key : SessionKey) (pw : String) : Prop :=
  ∃ before c lr answers behind x,
    es = before ++ .peer c (.loginRequest lr) answers :: behind ∧
    (run (step P) (start host) before).conns.get c = some x ∧ x.conn.authorized = false ∧
    lr.sessionKey = key ∧ (run (step P) (start host) before).host.temporaryPassword = pw ∧
    validateOnePassword P x.conn.salt x.conn.challenge lr pw = true

/-- An earlier code on a connection with a key was right. -/
def Coded (host : Host) (es : List (HostEvent τ)) (key : SessionKey) : Prop :=
  ∃ before c code hwid answers behind x totp,
    es = before ++ .peer c (.auth2fa code hwid) answers :: behind ∧
    (run (step P) (start host) before).conns.get c = some x ∧ x.conn.lr.sessionKey = key ∧
    x.conn.require2fa = some totp ∧
    P.checkCurrent totp (run (step P) (start host) before).host.now code = some true

variable {P} {host : Host} {es : List (HostEvent τ)} {s : HostState τ}
  {shown : SessionKey → String → Prop} {coded : SessionKey → Prop} {key : SessionKey}

theorem Shown.concat {pw : String} (h : Shown P host es key pw) (e : HostEvent τ) :
    Shown P host (es ++ [e]) key pw := by
  obtain ⟨before, c, lr, answers, behind, x, rfl, hx⟩ := h
  exact ⟨before, c, lr, answers, behind ++ [e], x, by simp, hx⟩

theorem Coded.concat (h : Coded P host es key) (e : HostEvent τ) :
    Coded P host (es ++ [e]) key := by
  obtain ⟨before, c, code, hwid, answers, behind, x, totp, rfl, hx⟩ := h
  exact ⟨before, c, code, hwid, answers, behind ++ [e], x, totp, by simp, hx⟩

/-- What the sessions remember, and what stands behind each connection. -/
structure Earned (P : Primitives τ) (shown : SessionKey → String → Prop)
    (coded : SessionKey → Prop) (s : HostState τ) : Prop where
  host : s.host.Remembers shown coded
  conns : ∀ c x, s.conns.get c = some x → x.Backed P shown

theorem Earned.mono {shown' : SessionKey → String → Prop} {coded' : SessionKey → Prop}
    (h : s.Earned P shown coded) (hshown : ∀ key pw, shown key pw → shown' key pw)
    (hcoded : ∀ key, coded key → coded' key) : s.Earned P shown' coded' := by
  refine ⟨h.host.mono hshown hcoded, fun c x hget hin => ?_⟩
  obtain ⟨pw, hpw, hvalid⟩ := h.conns c x hget hin
  exact ⟨pw, hshown _ pw hpw, hvalid⟩

theorem Earned.insert (h : s.Earned P shown coded) {c : Nat} {x : LoginState τ}
    (hx : x.Backed P shown) {host : Host} (hhost : host.Remembers shown coded) :
    Earned P shown coded { host, conns := s.conns.insert c x } := by
  refine ⟨hhost, fun c' x' hget => ?_⟩
  dsimp only at hget
  rw [Table.get_insert] at hget
  split_ifs at hget
  · cases hget
    exact hx
  · exact h.conns c' x' hget

theorem Earned.onConn (h : s.Earned P shown coded) (c : Nat) (e : LoginEvent)
    (helse : ∀ host, e ≠ .elsewhere host)
    (hshown : ∀ x key pw, s.conns.get c = some x →
      LoginState.Shows P { x with host := s.host } e key pw → shown key pw)
    (hcoded : ∀ x key, s.conns.get c = some x →
      LoginState.Codes P { x with host := s.host } e key → coded key) :
    (s.onConn P c e).Earned P shown coded := by
  unfold HostState.onConn
  cases hget : s.conns.get c with
  | none => exact h
  | some x =>
    have hearned : LoginState.Earned P shown coded { x with host := s.host } :=
      ⟨h.host, h.conns c x hget⟩
    have hstep := hearned.step e (fun host heq => absurd heq (helse host))
      (fun key pw => hshown x key pw hget) (fun key => hcoded x key hget)
    exact h.insert hstep.backed hstep.host

/-- An event that is no message of a peer shows nothing. -/
theorem Earned.onConn_quiet (h : s.Earned P shown coded) (c : Nat) {e : LoginEvent}
    (helse : ∀ host, e ≠ .elsewhere host) (hpeer : ∀ m answers, e ≠ .peer m answers) :
    (s.onConn P c e).Earned P shown coded := by
  refine h.onConn c e helse ?_ ?_
  · rintro x key pw - ⟨lr, answers, heq, -⟩
    exact absurd heq (hpeer _ _)
  · rintro x key - ⟨code, hwid, answers, heq, -⟩
    exact absurd heq (hpeer _ _)

/-- One event, behind a run. -/
theorem Earned.step
    (h : (run (step P) (start host) es).Earned P (Shown P host es) (Coded P host es))
    (e : HostEvent τ) : ((run (HostState.step P) (start host) es).step P e).Earned P
      (Shown P host (es ++ [e])) (Coded P host (es ++ [e])) := by
  replace h := h.mono (fun key pw hpw => Shown.concat hpw e) (fun key hkey => Coded.concat hkey e)
  cases e with
  | accept c require2fa salt challenge =>
    dsimp only [HostState.step]
    split
    · exact h.insert (fun hin => absurd hin List.not_mem_nil) h.host
    · exact h
  | peer c m answers =>
    refine h.onConn c (.peer m answers) (fun _ heq => by cases heq) ?_ ?_
    · rintro x key pw hget ⟨lr, answers', heq, hkey, hpw, hauth, hvalid⟩
      cases heq
      exact ⟨es, c, lr, answers, [], x, rfl, hget, hauth, hkey, hpw, hvalid⟩
    · rintro x key hget ⟨code, hwid, answers', heq, hkey, htakes⟩
      cases heq
      unfold LoginState.takes2fa at htakes
      rw [Bool.and_eq_true] at htakes
      cases h2fa : x.conn.require2fa with
      | none =>
        rw [h2fa] at htakes
        cases htakes.2
      | some totp =>
        rw [h2fa] at htakes
        exact ⟨es, c, code, hwid, answers, [], x, totp, rfl, hget, hkey, h2fa,
          of_decide_eq_true htakes.2⟩
  | authorize c =>
    exact h.onConn_quiet c (fun _ heq => by cases heq) (fun _ _ heq => by cases heq)
  | leave c => exact h.onConn_quiet c (fun _ heq => by cases heq) (fun _ _ heq => by cases heq)
  | drop c =>
    refine ⟨h.host, fun c' x hget => ?_⟩
    dsimp only [HostState.step] at hget
    rw [Table.get_remove] at hget
    split_ifs at hget
    exact h.conns c' x hget
  | received c =>
    dsimp only [HostState.step]
    split
    · exact h
    · split_ifs
      · exact ⟨h.host.receive _, h.conns⟩
      · exact h
  | checkRemoveSession c =>
    dsimp only [HostState.step, HostState.checkRemoveSession]
    split
    · exact h
    · split_ifs
      · refine ⟨h.host.of_le fun key s hget => ?_, h.conns⟩
        dsimp only at hget
        rw [Table.get_remove] at hget
        split_ifs at hget
        exact hget
      · exact h
  | configure host' => exact ⟨h.host, h.conns⟩

/-- Whatever the connections of a host do, and in whatever order, a session keeps a password only
if a login request with its key has shown it while it was the host's one-time password, and it
counts as passed by the second factor only if a code was right on a connection with its key. A
request that has been found to come back to its session has shown the same password again. -/
theorem sessions_earned (host : Host) (es : List (HostEvent τ)) :
    (∀ key s, (run (step P) (start host) es).host.sessions.get key = some s →
      (s.randomPassword ≠ "" → Shown P host es key s.randomPassword) ∧
        (s.tfa = true → Coded P host es key)) ∧
    ∀ c x, (run (step P) (start host) es).conns.get c = some x → .recentSession ∈ x.found →
      ∃ pw, Shown P host es x.conn.lr.sessionKey pw ∧
        validateOnePassword P x.conn.salt x.conn.challenge x.conn.lr pw = true := by
  have hearned : (run (step P) (start host) es).Earned P (Shown P host es) (Coded P host es) := by
    induction es using List.reverseRecOn with
    | nil =>
      refine ⟨fun key s hnone => ?_, fun c x hnone => ?_⟩
      · cases hnone
      · cases hnone
    | append_singleton es e ih =>
      rw [run_append]
      exact ih.step e
  exact ⟨hearned.host, hearned.conns⟩

end HostState

end MDesk.HostLogin
