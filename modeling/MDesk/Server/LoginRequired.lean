import MDesk.Core.Run
import MDesk.Server.LoginMessages

/-!
# Which factors a login has passed

When a connection becomes authorized, the first factor has been passed by the request it holds
unless a code of the second factor came before it, and the second factor has been passed unless
a trusted device has answered for another request.
-/

namespace MDesk.HostLogin

open MDesk.Core

namespace LoginState

variable {τ : Type*} {P : Primitives τ} {s s' s'' : LoginState τ} {answers : Answers}
  {lr : LoginRequest} {code : String} {hwid : List UInt8}

@[simp] theorem sendLoginError_conn (err : String) : (s.sendLoginError err).conn = s.conn := rfl

@[simp] theorem close_found : s.close.found = s.found := rfl

section SendLogonResponse

@[simp] theorem sendLogonResponse_found : (s.sendLogonResponse P).found = s.found := by
  unfold sendLogonResponse
  split_ifs <;> rfl

@[simp] theorem sendLogonResponse_tfaPassed :
    (s.sendLogonResponse P).tfaPassed = s.tfaPassed := by
  unfold sendLogonResponse
  split_ifs <;> rfl

@[simp] theorem sendLogonResponse_lr : (s.sendLogonResponse P).conn.lr = s.conn.lr := by
  unfold sendLogonResponse
  split_ifs <;> rfl

@[simp] theorem sendLogonResponse_fromSwitch :
    (s.sendLogonResponse P).conn.fromSwitch = s.conn.fromSwitch := by
  unfold sendLogonResponse
  split_ifs <;> rfl

/-- Without a second factor to pass, the logon response authorizes. -/
theorem sendLogonResponse_of_none (h : s.conn.require2fa = none) :
    (s.sendLogonResponse P).conn.authorized = true := by
  unfold sendLogonResponse
  by_cases hauth : s.conn.authorized = true
  · rw [if_pos hauth]
    exact hauth
  · rw [if_neg hauth, if_neg (by rw [h]; exact Bool.false_ne_true)]

/-- So it does when the sides are switched. -/
theorem sendLogonResponse_of_fromSwitch (h : s.conn.fromSwitch = true) :
    (s.sendLogonResponse P).conn.authorized = true := by
  unfold sendLogonResponse
  split_ifs with hauth h2fa hasked
  · exact hauth
  · rw [h] at hasked
    exact absurd hasked.2 (by decide)
  · rfl
  · rfl

/-- What stays of the host without a second factor to pass. -/
theorem sendLogonResponse_host (h : s.conn.require2fa = none) :
    (s.sendLogonResponse P).host = s.host := by
  unfold sendLogonResponse
  by_cases hauth : s.conn.authorized = true
  · rw [if_pos hauth]
  · rw [if_neg hauth, if_neg (by rw [h]; exact Bool.false_ne_true)]

/-- A session that is recent stays so while the clock stands. -/
theorem recentTfa_retainSessions {host : Host} (h : host.RecentTfa lr) :
    host.retainSessions.RecentTfa lr := by
  unfold Host.RecentTfa at h ⊢
  cases hget : host.retainSessions.sessions.get lr.sessionKey with
  | none =>
    rw [hget] at h
    cases h
  | some session =>
    have hagain : host.retainSessions.retainSessions.sessions.get lr.sessionKey = some session :=
      Table.get_retain_eq_some_iff.mpr ⟨hget, (Table.get_retain_eq_some_iff.mp hget).2⟩
    rw [hagain]
    rw [hget] at h
    exact h

/-- What the logon response finds when it authorizes. -/
theorem sendLogonResponse_cases (hauth : s.conn.authorized = false)
    (h : (s.sendLogonResponse P).conn.authorized = true) :
    s.conn.require2fa = none ∨ (s.sendLogonResponse P).host.RecentTfa s.conn.lr ∨
      s.conn.fromSwitch = true := by
  unfold sendLogonResponse at h ⊢
  rw [if_neg (by rw [hauth]; decide)] at h ⊢
  cases h2fa : s.conn.require2fa with
  | none => exact .inl rfl
  | some totp =>
    rw [h2fa, Option.isSome_some, if_pos rfl] at h
    rw [Option.isSome_some, if_pos rfl]
    dsimp only at h ⊢
    split_ifs at h ⊢ with hasked
    · rw [sendLoginError_conn, hauth] at h
      cases h
    · cases hswitch : s.conn.fromSwitch with
      | true => exact .inr (.inr rfl)
      | false =>
        refine .inr (.inl (recentTfa_retainSessions ?_))
        have hrecent : s.isRecentSession P true = true := by
          by_contra hnot
          exact hasked ⟨by simpa using hnot, by rw [hswitch]; decide⟩
        exact recentTfa_of_isRecentSession hrecent

end SendLogonResponse

/-- What the checks of a request leave as it is: they only find out about its first factor. -/
structure Keeps (s s' : LoginState τ) : Prop where
  authorized : s'.conn.authorized = s.conn.authorized
  fromSwitch : s'.conn.fromSwitch = s.conn.fromSwitch
  require2fa : s'.conn.require2fa = s.conn.require2fa
  lr : s'.conn.lr = s.conn.lr
  tfaPassed : s'.tfaPassed = s.tfaPassed
  old : ∀ f ∈ s.found, f ∈ s'.found
  new : ∀ f ∈ s'.found, f ∈ s.found ∨ f = .password ∨ f = .recentSession

namespace Keeps

theorem of_found (hauth : s'.conn.authorized = s.conn.authorized)
    (hswitch : s'.conn.fromSwitch = s.conn.fromSwitch)
    (h2fa : s'.conn.require2fa = s.conn.require2fa) (hlr : s'.conn.lr = s.conn.lr)
    (htfa : s'.tfaPassed = s.tfaPassed) (hfound : s'.found = s.found) : Keeps s s' := by
  refine ⟨hauth, hswitch, h2fa, hlr, htfa, ?_, ?_⟩
  · intro f hf
    rw [hfound]
    exact hf
  · intro f hf
    rw [hfound] at hf
    exact .inl hf

theorem trans (h : Keeps s s') (h' : Keeps s' s'') : Keeps s s'' := by
  refine ⟨h'.authorized.trans h.authorized, h'.fromSwitch.trans h.fromSwitch,
    h'.require2fa.trans h.require2fa, h'.lr.trans h.lr, h'.tfaPassed.trans h.tfaPassed, ?_, ?_⟩
  · exact fun f hf => h'.old f (h.old f hf)
  · intro f hf
    rcases h'.new f hf with hthis | hnew
    · exact h.new f hthis
    · exact .inr hnew

theorem sendLoginError (h : Keeps s s') (err : String) : Keeps s (s'.sendLoginError err) :=
  h.trans (of_found rfl rfl rfl rfl rfl rfl)

theorem close (h : Keeps s s') : Keeps s s'.close := h.trans (of_found rfl rfl rfl rfl rfl rfl)

theorem find (h : Keeps s s') {f : Finding} (hf : f = .password ∨ f = .recentSession) :
    Keeps s (s'.find f) := by
  refine h.trans ⟨rfl, rfl, rfl, rfl, rfl, fun g hg => List.mem_cons_of_mem f hg, ?_⟩
  intro g hg
  rcases List.mem_cons.mp hg with rfl | hold
  · exact .inr hf
  · exact .inl hold

end Keeps

/-- The state that a part of the login ends in, whether the login goes on or not. -/
def behind : Except (LoginState τ) (LoginState τ) → LoginState τ
  | .ok s => s
  | .error s => s

/-- Opening what a request asks for decides nothing. -/
theorem keeps_openScope (s : LoginState τ) (answers : Answers) (lr : LoginRequest) :
    Keeps s (behind (s.openScope answers lr)) := by
  unfold openScope
  cases lr.union with
  | none =>
    dsimp only
    split_ifs <;> exact .of_found rfl rfl rfl rfl rfl rfl
  | some u =>
    cases u with
    | fileTransfer dir showHidden =>
      dsimp only
      split_ifs <;> exact .of_found rfl rfl rfl rfl rfl rfl
    | viewCamera =>
      dsimp only
      split_ifs <;> exact .of_found rfl rfl rfl rfl rfl rfl
    | terminal serviceId =>
      dsimp only
      split_ifs
      · exact .of_found rfl rfl rfl rfl rfl rfl
      · exact .of_found rfl rfl rfl rfl rfl rfl
      · cases answers.userToken with
        | error msg => exact .of_found rfl rfl rfl rfl rfl rfl
        | ok token =>
          dsimp only
          split
          · split_ifs <;> exact .of_found rfl rfl rfl rfl rfl rfl
          · exact .of_found rfl rfl rfl rfl rfl rfl
    | portForward host port =>
      dsimp only
      split_ifs <;> exact .of_found rfl rfl rfl rfl rfl rfl

/-- The first factor decides nothing but what is found. -/
theorem keeps_firstFactor (P : Primitives τ) (s : LoginState τ) (answers : Answers)
    (lr : LoginRequest) : Keeps s (behind (s.firstFactor P answers lr)) := by
  have hretain : Keeps s { s with host := s.host.retainSessions } :=
    .of_found rfl rfl rfl rfl rfl rfl
  unfold firstFactor
  dsimp only
  split
  · exact .of_found rfl rfl rfl rfl rfl rfl
  split
  · exact .of_found rfl rfl rfl rfl rfl rfl
  split
  · split_ifs <;> exact .of_found rfl rfl rfl rfl rfl rfl
  split
  · split_ifs
    · exact hretain.find (.inr rfl)
    · exact (hretain.find (.inr rfl)).sendLoginError _
  split
  · split_ifs
    · exact hretain.sendLoginError _
    · exact hretain
    · exact hretain.sendLoginError _
  cases answers.refusal .password with
  | some r => exact hretain.sendLoginError _
  | none =>
    dsimp only
    split
    · rename_i host method _
      have hhost : Keeps s { s with host := host } := .of_found rfl rfl rfl rfl rfl rfl
      split_ifs
      · exact hhost.find (.inl rfl)
      · exact (hhost.find (.inl rfl)).sendLoginError _
    · split_ifs <;> exact .of_found rfl rfl rfl rfl rfl rfl

/-- Where the login goes on to the logon response, the request has passed its first factor. -/
theorem found_of_firstFactor (h : s.firstFactor P answers lr = .ok s') :
    .password ∈ s'.found ∨ .recentSession ∈ s'.found := by
  unfold firstFactor at h
  dsimp only at h
  split at h
  · cases h
  split at h
  · cases h
  split at h
  · cases h
  split at h
  · split_ifs at h
    cases h
    exact .inr List.mem_cons_self
  split at h
  · cases h
  cases hrefusal : answers.refusal .password with
  | some r =>
    rw [hrefusal] at h
    cases h
  | none =>
    rw [hrefusal] at h
    dsimp only at h
    split at h
    · split_ifs at h
      cases h
      exact .inl List.mem_cons_self
    · cases h

/-- A login request gets to the logon response in a state. -/
def Reaches (P : Primitives τ) (s : LoginState τ) (answers : Answers) (lr : LoginRequest)
    (s' : LoginState τ) : Prop :=
  ∃ opened, (s.resetSessionScopeForLogin.handleLoginRequestWithoutValidation lr).openScope
    answers lr = .ok opened ∧ opened.firstFactor P answers lr = .ok s'

/-- A login request gets to the logon response, or leaves the connection as it was. -/
theorem onLoginRequest_cases (P : Primitives τ) (s : LoginState τ) (answers : Answers)
    (lr : LoginRequest) :
    (∃ s', Reaches P s answers lr s' ∧ s.onLoginRequest P answers lr = s'.sendLogonResponse P) ∨
      (∀ s', ¬Reaches P s answers lr s') ∧
        Keeps (s.resetSessionScopeForLogin.handleLoginRequestWithoutValidation lr)
          (s.onLoginRequest P answers lr) := by
  unfold onLoginRequest
  have hopen := keeps_openScope
    (s.resetSessionScopeForLogin.handleLoginRequestWithoutValidation lr) answers lr
  cases hopened : (s.resetSessionScopeForLogin.handleLoginRequestWithoutValidation lr).openScope
      answers lr with
  | error ended =>
    rw [hopened] at hopen
    refine .inr ⟨fun s' ⟨opened, heq, _⟩ => ?_, hopen⟩
    rw [hopened] at heq
    cases heq
  | ok opened =>
    rw [hopened] at hopen
    have hfirst := keeps_firstFactor P opened answers lr
    dsimp only
    cases hpassed : opened.firstFactor P answers lr with
    | error ended =>
      rw [hpassed] at hfirst
      refine .inr ⟨fun s' ⟨opened', heq, heq'⟩ => ?_, hopen.trans hfirst⟩
      rw [hopened] at heq
      cases heq
      rw [hpassed] at heq'
      cases heq'
    | ok passed => exact .inl ⟨passed, ⟨opened, hopened, hpassed⟩, rfl⟩

/-- What a request that gets to the logon response has left as it was. -/
theorem keeps_of_reaches (h : Reaches P s answers lr s') :
    Keeps (s.resetSessionScopeForLogin.handleLoginRequestWithoutValidation lr) s' := by
  obtain ⟨opened, hopened, hpassed⟩ := h
  have hopen := keeps_openScope
    (s.resetSessionScopeForLogin.handleLoginRequestWithoutValidation lr) answers lr
  have hfirst := keeps_firstFactor P opened answers lr
  rw [hopened] at hopen
  rw [hpassed] at hfirst
  exact hopen.trans hfirst

/-- A code that is right authorizes, whatever has been found of the request that is held. -/
theorem onAuth2fa_of_takes (hwid : List UInt8) (h : s.takes2fa P answers code = true) :
    (s.onAuth2fa P answers code hwid).conn.authorized = true ∧
      (s.onAuth2fa P answers code hwid).found = s.found ∧
        (s.onAuth2fa P answers code hwid).tfaPassed = true := by
  unfold takes2fa at h
  rw [Bool.and_eq_true, Option.isNone_iff_eq_none] at h
  obtain ⟨hrefusal, hcode⟩ := h
  unfold onAuth2fa
  rw [hrefusal]
  cases h2fa : s.conn.require2fa with
  | none =>
    rw [h2fa] at hcode
    cases hcode
  | some totp =>
    rw [h2fa] at hcode
    dsimp only at hcode ⊢
    rw [of_decide_eq_true hcode]
    dsimp only
    split_ifs
    · refine ⟨sendLogonResponse_of_none rfl, ?_, ?_⟩
      · exact sendLogonResponse_found
      · exact sendLogonResponse_tfaPassed
    · refine ⟨sendLogonResponse_of_none rfl, ?_, ?_⟩
      · exact sendLogonResponse_found
      · exact sendLogonResponse_tfaPassed

/-- Any other code leaves the login as it was. -/
theorem onAuth2fa_of_not_takes (h : s.takes2fa P answers code = false) :
    Keeps s (s.onAuth2fa P answers code hwid) := by
  have hrefl : Keeps s s := .of_found rfl rfl rfl rfl rfl rfl
  unfold onAuth2fa
  cases hrefusal : answers.refusal .totp with
  | some r => exact hrefl.sendLoginError _
  | none =>
    cases h2fa : s.conn.require2fa with
    | none => exact hrefl
    | some totp =>
      dsimp only
      cases hcode : P.checkCurrent totp s.host.now code with
      | none => exact hrefl
      | some right =>
        cases right with
        | false => exact hrefl.sendLoginError _
        | true =>
          unfold takes2fa at h
          rw [hrefusal, h2fa] at h
          dsimp only at h
          rw [hcode] at h
          cases h

/-- A switch of sides authorizes, or leaves a request behind of which nothing but a trusted device
is found. -/
theorem onSwitchSidesResponse_cases (uuid : List UInt8) (lr : LoginRequest) :
    ((s.onSwitchSidesResponse P uuid (some lr)).conn.authorized = true ∧
      .switchSides ∈ (s.onSwitchSidesResponse P uuid (some lr)).found) ∨
    Keeps (s.handleLoginRequestWithoutValidation lr)
      (s.onSwitchSidesResponse P uuid (some lr)) := by
  unfold onSwitchSidesResponse
  dsimp only
  split
  · split_ifs
    · refine .inl ⟨sendLogonResponse_of_fromSwitch rfl, ?_⟩
      rw [sendLogonResponse_found]
      exact List.mem_cons_self
    · exact .inr (.of_found rfl rfl rfl rfl rfl rfl)
  · exact .inr (.of_found rfl rfl rfl rfl rfl rfl)

/-- The user authorizes at once. -/
theorem onAuthorize_spec :
    (s.onAuthorize P).conn.authorized = true ∧ .authorize ∈ (s.onAuthorize P).found := by
  unfold onAuthorize
  dsimp only
  split_ifs
  · refine ⟨sendLogonResponse_of_none rfl, ?_⟩
    rw [close_found, sendLogonResponse_found]
    exact List.mem_cons_self
  · refine ⟨sendLogonResponse_of_none rfl, ?_⟩
    rw [sendLogonResponse_found]
    exact List.mem_cons_self

/-- The first factor of the request that is held has been passed, or was not asked for. -/
def FirstFactor (s : LoginState τ) : Prop :=
  .password ∈ s.found ∨ .recentSession ∈ s.found ∨ .authorize ∈ s.found ∨ .switchSides ∈ s.found

/-- The second factor has been passed on this connection or by its session, or the request that is
held does not ask for it. -/
def SecondFactor (s : LoginState τ) : Prop :=
  s.tfaPassed = true ∨ s.host.RecentTfa s.conn.lr ∨ .authorize ∈ s.found ∨
    .switchSides ∈ s.found ∨ .trustedDevice ∈ s.found

/-- When an event makes a connection authorized, a factor has been passed. -/
def AuthorizedWith (P : Primitives τ) (factor : LoginState τ → Prop) (s : LoginState τ)
    (e : LoginEvent) : Prop :=
  s.conn.authorized = false → (s.step P e).conn.authorized = true → factor (s.step P e)

/-- Nothing lets a connection in before it is authorized. -/
def Waiting (s : LoginState τ) : Prop :=
  s.conn.authorized = false →
    s.conn.fromSwitch = false ∧ .authorize ∉ s.found ∧ .switchSides ∉ s.found

/-- What is found of a request at once. -/
theorem found_handle {f : Finding}
    (h : f ∈ (s.handleLoginRequestWithoutValidation lr).found) : f = .trustedDevice := by
  unfold handleLoginRequestWithoutValidation at h
  dsimp only at h
  split_ifs at h
  · exact List.mem_singleton.mp h
  · cases h

/-- A request that takes the place of another one does not let it in. -/
theorem Waiting.handle (h : Waiting s) : Waiting (s.handleLoginRequestWithoutValidation lr) := by
  intro hauth
  refine ⟨(h hauth).1, ?_, ?_⟩
  · intro hin
    cases found_handle hin
  · intro hin
    cases found_handle hin

theorem Waiting.keep (h : Waiting s) (hkeeps : Keeps s s') : Waiting s' := by
  intro hauth
  obtain ⟨hswitch, hauthorize, hsides⟩ := h (hkeeps.authorized.symm.trans hauth)
  refine ⟨?_, ?_, ?_⟩
  · rw [hkeeps.fromSwitch]
    exact hswitch
  · intro hin
    rcases hkeeps.new _ hin with hfound | hnew | hnew
    · exact hauthorize hfound
    · cases hnew
    · cases hnew
  · intro hin
    rcases hkeeps.new _ hin with hfound | hnew | hnew
    · exact hsides hfound
    · cases hnew
    · cases hnew

theorem Waiting.sendLogonResponse (h : Waiting s) : Waiting (s.sendLogonResponse P) := by
  intro hauth
  have hold : s.conn.authorized = false := by
    by_contra hauthorized
    unfold LoginState.sendLogonResponse at hauth
    rw [if_pos (by simpa using hauthorized)] at hauth
    exact hauthorized hauth
  rw [sendLogonResponse_fromSwitch, sendLogonResponse_found]
  exact h hold

section Step

variable {e : LoginEvent} {m : PeerMessage} {uuid : List UInt8} {request : Option LoginRequest}

/-- A connection that has ended handles nothing. -/
theorem step_peer_of_ended (h : s.ended = true) : s.step P (.peer m answers) = s := if_pos h

theorem step_peer (h : s.ended = false) : s.step P (.peer m answers) = s.onMessage P m answers :=
  if_neg (by rw [h]; exact Bool.false_ne_true)

theorem onMessage_loginRequest (h : s.conn.authorized = false) :
    s.onMessage P (.loginRequest lr) answers = s.onLoginRequest P answers lr :=
  if_neg (by rw [h]; exact Bool.false_ne_true)

theorem onMessage_auth2fa (h : s.conn.authorized = false) :
    s.onMessage P (.auth2fa code hwid) answers = s.onAuth2fa P answers code hwid :=
  if_neg fun hc => Bool.false_ne_true (h.symm.trans hc.1)

theorem onMessage_switchSidesResponse (h : s.conn.authorized = false) :
    s.onMessage P (.switchSidesResponse uuid request) answers =
      s.onSwitchSidesResponse P uuid request :=
  if_neg (by rw [h]; exact Bool.false_ne_true)

end Step

theorem Waiting.step (h : Waiting s) (e : LoginEvent) : Waiting (s.step P e) := by
  cases e with
  | elsewhere host => exact h
  | leave => exact h
  | authorize =>
    unfold LoginState.step
    split_ifs
    · exact h
    · intro hauth
      rw [onAuthorize_spec.1] at hauth
      cases hauth
  | peer m answers =>
    unfold LoginState.step
    split_ifs
    · exact h
    cases m with
    | closeReason => exact h
    | other => exact h
    | loginRequest lr =>
      unfold onMessage
      dsimp only
      split_ifs with hauth
      · exact h
      have hheld : Waiting (s.resetSessionScopeForLogin.handleLoginRequestWithoutValidation lr) :=
        Waiting.handle (s := s.resetSessionScopeForLogin) h
      rcases onLoginRequest_cases P s answers lr with ⟨s', hreach, heq⟩ | ⟨-, hkeeps⟩
      · rw [heq]
        exact (hheld.keep (keeps_of_reaches hreach)).sendLogonResponse
      · exact hheld.keep hkeeps
    | auth2fa code hwid =>
      unfold onMessage
      dsimp only
      split_ifs
      · exact h
      cases htakes : s.takes2fa P answers code with
      | false => exact h.keep (onAuth2fa_of_not_takes htakes)
      | true =>
        intro hauth
        rw [(onAuth2fa_of_takes hwid htakes).1] at hauth
        cases hauth
    | switchSidesResponse uuid lr =>
      unfold onMessage
      dsimp only
      split_ifs
      · exact h
      cases lr with
      | none => exact h
      | some lr =>
        rcases onSwitchSidesResponse_cases (P := P) (s := s) uuid lr with ⟨hin, -⟩ | hkeeps
        · intro hauth
          rw [hin] at hauth
          cases hauth
        · exact h.handle.keep hkeeps

/-- How a connection becomes authorized: a login request gets to the logon response, a code of the
second factor is right, the user lets it in, or the sides are switched. -/
theorem becomes_authorized {e : LoginEvent} (hauth : s.conn.authorized = false)
    (h : (s.step P e).conn.authorized = true) :
    (∃ lr answers s', e = .peer (.loginRequest lr) answers ∧ s.ended = false ∧
      Reaches P s answers lr s' ∧ s.step P e = s'.sendLogonResponse P) ∨
    (∃ code hwid answers, e = .peer (.auth2fa code hwid) answers ∧ s.ended = false ∧
      s.takes2fa P answers code = true ∧ (s.step P e).found = s.found ∧
        (s.step P e).tfaPassed = true) ∨
    .authorize ∈ (s.step P e).found ∨ .switchSides ∈ (s.step P e).found := by
  have hnot : ∀ {s'}, Keeps s s' → s'.conn.authorized = true → False := by
    intro s' hkeeps htrue
    rw [hkeeps.authorized, hauth] at htrue
    cases htrue
  have hrefl : Keeps s s := .of_found rfl rfl rfl rfl rfl rfl
  cases e with
  | elsewhere host => exact (hnot hrefl h).elim
  | leave => exact (hnot hrefl h).elim
  | authorize =>
    cases hended : s.ended with
    | true =>
      rw [show s.step P .authorize = s from if_pos hended] at h
      exact (hnot hrefl h).elim
    | false =>
      have heq : s.step P .authorize = s.onAuthorize P :=
        if_neg (by rw [hended]; exact Bool.false_ne_true)
      rw [heq]
      exact .inr (.inr (.inl onAuthorize_spec.2))
  | peer m answers =>
    cases hended : s.ended with
    | true =>
      rw [step_peer_of_ended hended] at h
      exact (hnot hrefl h).elim
    | false =>
      rw [step_peer hended] at h ⊢
      cases m with
      | closeReason => exact (hnot hrefl h).elim
      | other => exact (hnot hrefl h).elim
      | loginRequest lr =>
        rw [onMessage_loginRequest hauth] at h ⊢
        rcases onLoginRequest_cases P s answers lr with ⟨s', hreach, hsent⟩ | ⟨-, hkeeps⟩
        · exact .inl ⟨lr, answers, s', rfl, rfl, hreach, hsent⟩
        · rw [hkeeps.authorized] at h
          exact (hnot hrefl h).elim
      | auth2fa code hwid =>
        rw [onMessage_auth2fa hauth] at h ⊢
        cases htakes : s.takes2fa P answers code with
        | false => exact (hnot (onAuth2fa_of_not_takes htakes) h).elim
        | true =>
          obtain ⟨-, hfound, htfa⟩ := onAuth2fa_of_takes hwid htakes
          exact .inr (.inl ⟨code, hwid, answers, rfl, rfl, htakes, hfound, htfa⟩)
      | switchSidesResponse uuid lr =>
        rw [onMessage_switchSidesResponse hauth] at h ⊢
        cases lr with
        | none => exact (hnot hrefl h).elim
        | some lr =>
          rcases onSwitchSidesResponse_cases (P := P) (s := s) uuid lr with ⟨-, hfound⟩ | hkeeps
          · exact .inr (.inr (.inr hfound))
          · rw [hkeeps.authorized] at h
            exact (hnot hrefl h).elim

/-- A code of the second factor that is right finds the first factor passed by the request that is
held. -/
def FirstFits (P : Primitives τ) (s : LoginState τ) : LoginEvent → Prop
  | .peer (.auth2fa code _) answers => s.ended = false → s.conn.authorized = false →
      s.takes2fa P answers code = true → .password ∈ s.found ∨ .recentSession ∈ s.found
  | _ => True

/-- A login request that gets to the logon response without a second factor to pass, and without a
code that was right, has a session that has passed it, or a trusted device of its own. -/
def SecondFits (P : Primitives τ) (s : LoginState τ) : LoginEvent → Prop
  | .peer (.loginRequest lr) answers => s.ended = false → s.conn.authorized = false →
      s.conn.require2fa = none → s.tfaPassed = false → ∀ s', Reaches P s answers lr s' →
        s'.host.RecentTfa lr ∨ s.host.Trusts lr
  | _ => True

/-- A request that gets to the logon response is held, and what its trusted device says is known. -/
theorem trusted_of_reaches (h : Reaches P s answers lr s') :
    s'.conn.lr = lr ∧ (.trustedDevice ∈ s'.found ↔ s.host.Trusts lr) := by
  have hkeeps := keeps_of_reaches h
  refine ⟨hkeeps.lr, ?_⟩
  have hhandle : Finding.trustedDevice ∈
      (s.resetSessionScopeForLogin.handleLoginRequestWithoutValidation lr).found ↔
        s.host.Trusts lr := by
    change Finding.trustedDevice ∈ (if s.host.Trusts lr then [.trustedDevice] else []) ↔ _
    split_ifs with htrusts
    · exact iff_of_true List.mem_cons_self htrusts
    · exact iff_of_false List.not_mem_nil htrusts
  rw [← hhandle]
  constructor
  · intro hin
    rcases hkeeps.new _ hin with hold | hnew | hnew
    · exact hold
    · cases hnew
    · cases hnew
  · exact hkeeps.old _

/-- The second factor that is left to pass behind the checks of a request. -/
theorem require2fa_of_reaches (h : Reaches P s answers lr s') :
    s'.conn.require2fa = if s.host.bypasses lr then none else s.conn.require2fa :=
  (keeps_of_reaches h).require2fa

/-- One event, and the first factor. -/
theorem first_step_iff (h : Waiting s) (e : LoginEvent) :
    AuthorizedWith P FirstFactor s e ↔ FirstFits P s e := by
  constructor
  · intro hwith
    unfold FirstFits
    split
    · intro hended hauth htakes
      rename_i code hwid answers
      obtain ⟨hnow, hfound, -⟩ := onAuth2fa_of_takes hwid htakes
      have hfirst := hwith hauth
      rw [step_peer hended, onMessage_auth2fa hauth] at hfirst
      have hpassed := hfirst hnow
      unfold FirstFactor at hpassed
      rw [hfound] at hpassed
      rcases hpassed with hin | hin | hin | hin
      · exact .inl hin
      · exact .inr hin
      · exact absurd hin (h hauth).2.1
      · exact absurd hin (h hauth).2.2
    · trivial
  · intro hfits hauth hnow
    rcases becomes_authorized hauth hnow with ⟨lr, answers, s', -, -, hreach, heq⟩ |
      ⟨code, hwid, answers, rfl, hended, htakes, hfound, -⟩ | hin | hin
    · obtain ⟨opened, -, hpassed⟩ := hreach
      unfold FirstFactor
      rw [heq, sendLogonResponse_found]
      rcases found_of_firstFactor hpassed with hin | hin
      · exact .inl hin
      · exact .inr (.inl hin)
    · unfold FirstFactor
      rw [hfound]
      rcases hfits hended hauth htakes with hin | hin
      · exact .inl hin
      · exact .inr (.inl hin)
    · exact .inr (.inr (.inl hin))
    · exact .inr (.inr (.inr hin))

/-- One event, and the second factor. -/
theorem second_step_iff (h : Waiting s) (e : LoginEvent) :
    AuthorizedWith P SecondFactor s e ↔ SecondFits P s e := by
  constructor
  · intro hwith
    unfold SecondFits
    split
    · intro hended hauth h2fa htfa s' hreach
      rename_i lr answers
      have hkeeps := keeps_of_reaches hreach
      obtain ⟨hlr, htrusted⟩ := trusted_of_reaches hreach
      have hnone : s'.conn.require2fa = none := by
        rw [require2fa_of_reaches hreach, h2fa, ite_self]
      have heq : s.onLoginRequest P answers lr = s'.sendLogonResponse P := by
        obtain ⟨opened, hopened, hpassed⟩ := hreach
        unfold onLoginRequest
        rw [hopened]
        dsimp only
        rw [hpassed]
      have hsecond := hwith hauth
      rw [step_peer hended, onMessage_loginRequest hauth, heq] at hsecond
      have hpassed := hsecond (sendLogonResponse_of_none hnone)
      have hwait : Waiting s' :=
        Waiting.keep (Waiting.handle (s := s.resetSessionScopeForLogin) h) hkeeps
      obtain ⟨-, hauthorize, hsides⟩ := hwait (hkeeps.authorized.trans hauth)
      unfold SecondFactor at hpassed
      rw [sendLogonResponse_tfaPassed, hkeeps.tfaPassed, sendLogonResponse_host hnone,
        sendLogonResponse_lr, sendLogonResponse_found, hlr, htrusted] at hpassed
      rcases hpassed with hin | hin | hin | hin | hin
      · exact absurd (htfa.symm.trans hin) Bool.false_ne_true
      · exact .inl hin
      · exact absurd hin hauthorize
      · exact absurd hin hsides
      · exact .inr hin
    · trivial
  · intro hfits hauth hnow
    rcases becomes_authorized hauth hnow with ⟨lr, answers, s', rfl, hended, hreach, heq⟩ |
      ⟨code, hwid, answers, -, -, -, -, htfa⟩ | hin | hin
    · have hkeeps := keeps_of_reaches hreach
      obtain ⟨hlr, htrusted⟩ := trusted_of_reaches hreach
      have hunauth : s'.conn.authorized = false := hkeeps.authorized.trans hauth
      have hwait : Waiting s' :=
        Waiting.keep (Waiting.handle (s := s.resetSessionScopeForLogin) h) hkeeps
      rw [heq] at hnow ⊢
      unfold SecondFactor
      rw [sendLogonResponse_tfaPassed, sendLogonResponse_lr, sendLogonResponse_found]
      rcases sendLogonResponse_cases hunauth hnow with hnone | hrecent | hswitch
      · rw [sendLogonResponse_host hnone, hlr, htrusted, hkeeps.tfaPassed]
        cases htfa : s.tfaPassed with
        | true => exact .inl htfa
        | false =>
          cases h2fa : s.conn.require2fa with
          | none =>
            rcases hfits hended hauth h2fa htfa s' hreach with hin | hin
            · exact .inr (.inl hin)
            · exact .inr (.inr (.inr (.inr hin)))
          | some totp =>
            rw [require2fa_of_reaches hreach, h2fa] at hnone
            split_ifs at hnone with hbypass
            exact .inr (.inr (.inr (.inr (Host.trusts_of_bypasses hbypass))))
      · exact .inr (.inl hrecent)
      · rw [(hwait hunauth).1] at hswitch
        cases hswitch
    · exact .inl htfa
    · exact .inr (.inr (.inl hin))
    · exact .inr (.inr (.inr (.inl hin)))

/-- A connection that comes in, with the second factor that its host asks for. -/
def incoming (require2fa : Option τ) (salt challenge : String) (host : Host) : LoginState τ where
  conn := { require2fa, salt, challenge }
  host := host

theorem Waiting.incoming {require2fa : Option τ} {salt challenge : String} {host : Host} :
    Waiting (incoming require2fa salt challenge host) :=
  fun _ => ⟨rfl, List.not_mem_nil, List.not_mem_nil⟩

/-- Whenever a connection becomes authorized its first factor has been passed, exactly when every
right code of the second factor comes behind the first factor of the request that is held. -/
theorem first_factor_iff_fits (require2fa : Option τ) (salt challenge : String) (host : Host)
    (es : List LoginEvent) :
    Allowed (step P) (AuthorizedWith P FirstFactor) (incoming require2fa salt challenge host) es ↔
      Allowed (step P) (FirstFits P) (incoming require2fa salt challenge host) es := by
  apply allowed_congr (Q := Waiting)
  · exact fun s e h => Waiting.step h e
  · exact fun s e h => first_step_iff h e
  · exact Waiting.incoming

/-- Whenever a connection becomes authorized on a host with a second factor it has been passed,
exactly when every request that goes on without one is excused by itself. -/
theorem second_factor_iff_fits (totp : τ) (salt challenge : String) (host : Host)
    (es : List LoginEvent) :
    Allowed (step P) (AuthorizedWith P SecondFactor) (incoming (some totp) salt challenge host)
      es ↔ Allowed (step P) (SecondFits P) (incoming (some totp) salt challenge host) es := by
  apply allowed_congr (Q := Waiting)
  · exact fun s e h => Waiting.step h e
  · exact fun s e h => second_step_iff h e
  · exact Waiting.incoming

instance (s : LoginState τ) : Decidable s.FirstFactor := inferInstanceAs (Decidable (_ ∨ _))

instance (s : LoginState τ) : Decidable s.SecondFactor := inferInstanceAs (Decidable (_ ∨ _))

/-- The hash of the password "1" with the salt "s". -/
def saltedOne : List UInt8 :=
  [100, 200, 61, 248, 114, 216, 8, 161, 130, 10, 171, 114, 170, 32, 191, 44, 243, 59, 150, 255,
    244, 147, 62, 105, 30, 48, 247, 100, 109, 252, 193, 190]

/-- The hash of that one with the challenge "c". -/
def challengedOne : List UInt8 :=
  [125, 73, 89, 181, 220, 133, 204, 172, 61, 246, 60, 83, 58, 9, 205, 204, 150, 237, 209, 210,
    144, 127, 143, 213, 84, 36, 126, 28, 32, 168, 242, 229]

/-- The hash of the password "1", and a code that is right now. -/
def passwordOne : Primitives Unit where
  sha256 := fun bytes => if bytes = [49, 115] then saltedOne
    else if bytes = saltedOne ++ [99] then challengedOne else []
  checkCurrent := fun _ _ code => some (code = "123456")
  decryptStr := fun _ => none
  parseUsers := fun _ => none
  trimToLowercase := id
  isIpStr := fun _ => false
  isDomainPortStr := fun _ => false
  devicesFit := fun _ => true

/-- A host with the password "1" and a trusted device. -/
def hostOne : Host where
  id := "host"
  temporaryPassword := "1"
  trustedDevices := [{ hwid := [7], time := 0, id := "a", name := "n", platform := "p" }]

/-- A wrong password and then a right code authorize. -/
theorem first_factor_code_alone : ¬ Allowed (step passwordOne)
    (AuthorizedWith passwordOne FirstFactor) (incoming (some ()) "s" "c" hostOne)
      [.peer (.loginRequest { username := "host", myId := "b", password := [0] }) {},
        .peer (.auth2fa "123456" []) {}] := by
  intro h
  have hfirst := h.2.1 (by decide) (by decide)
  revert hfirst
  decide

/-- A wrong password under the name of a trusted device, and then the right one under another. -/
theorem second_factor_other_device : ¬ Allowed (step passwordOne)
    (AuthorizedWith passwordOne SecondFactor) (incoming (some ()) "s" "c" hostOne)
      [.peer (.loginRequest {
          username := "host", myId := "a", myName := "n", myPlatform := "p", hwid := [7]
          password := [0] }) {},
        .peer (.loginRequest {
          username := "host", myId := "b", password := challengedOne }) {}] := by
  intro h
  have hsecond := h.2.1 (by decide) (by decide)
  revert hsecond
  decide

end LoginState

end MDesk.HostLogin
