import MDesk.Net.PortForwardTalk

/-!
# Clean port-forward streams

Every step of the host and of the controller keeps both directions in order and the talk
sound, as long as nothing framed is left for a host that has left its loop.
-/

namespace MDesk.Net.PortForward

open MDesk.Core

variable {p : Proto} {key : Option Bytes} {m : Message}

section HostSteps

variable {W : World} {H : Host} {out : Bytes} {ms : List Message}

theorem send_eq (H : Host) (m : Message) : H.send p m =
    ({ H with toEndpoint := (H.toEndpoint.send p m).1 }, (H.toEndpoint.send p m).2) := rfl

/-- Leaving the loop for the target is safe once everything is handled. -/
theorem Inv.leave (hw : Wired p key H.toEndpoint W.controller.toEndpoint W.toHost
      (W.toController ++ out)) (hloop : H.phase = .loop) (hsocket : H.portForwardSocket = true)
    (hinput : H.input = []) (hall : W.controller.sent = H.handled)
    (htalk : Talk { H with portForwardSocket := false, toEndpoint := H.setRaw } W.controller) :
    Inv p key (W.hostDoes (H.leave, out)) := by
  have hleave : H.leave = { H with portForwardSocket := false, toEndpoint := H.setRaw } := by
    simp only [Host.leave, hsocket, if_true]
  have hraw := hw.setRaw hloop hall
  rw [hinput, List.append_nil] at hraw
  rw [hleave]
  exact ⟨hraw, htalk⟩

/-- The host of a world with no more done than a message read and its target connected, before
it is logged in. -/
structure Connected (p : Proto) (key : Option Bytes) (W : World) (H : Host) : Prop where
  wired : Wired p key H.toEndpoint W.controller.toEndpoint W.toHost W.toController
  loop : H.phase = .loop
  unauthorized : H.authorized = false
  socket : H.portForwardSocket = true
  input : H.input = []
  before : W.host.authorized = false
  sent : H.sent = W.host.sent
  handled : H.handled.count .testDelay = W.host.handled.count .testDelay
  delay : H.lastTestDelay = W.host.lastTestDelay

/-- The host lets a login in: it waits for an open delay test, or leaves its loop. -/
theorem Inv.logon (hp : p.Lawful) (hI : Inv p key W) (hH : Connected p key W H)
    (hms : W.controller.sent = H.handled ++ ms) (hlogin : H.lastTestDelay = false → NoLogin ms) :
    Inv p key (W.hostDoes (if H.lastTestDelay then H.sendLogonResponse p
      else ((H.sendLogonResponse p).1.leave, (H.sendLogonResponse p).2))) := by
  have hlogon : H.sendLogonResponse p = { H with authorized := true }.send p .peerInfo := by
    simp only [Host.sendLogonResponse, hH.unauthorized, Bool.false_eq_true, if_false]
  have hsend := hH.wired.send hp hH.loop (hI.controller_not_raw hH.before) .peerInfo
  have hlast : (H.toEndpoint.send p .peerInfo).1.sent = W.host.sent ++ [.peerInfo] :=
    congrArg (· ++ _) hH.sent
  rw [hlogon, send_eq]
  by_cases hopen : H.lastTestDelay = true
  · rw [if_pos hopen]
    refine ⟨hsend, hI.talk.authorize rfl hH.before hlast hH.handled hH.delay ?_⟩
    exact .inl ⟨hH.loop, hH.socket, hopen, hH.input⟩
  · rw [if_neg hopen]
    rw [Bool.not_eq_true] at hopen
    have hprobes := hI.talk.probes
    rw [← hH.delay, hopen, Bool.toNat_false, Nat.add_zero, ← hH.sent, ← hH.handled] at hprobes
    have hfirst : W.controller.handled <+: H.sent := hH.sent ▸ hI.wired.linkB.clean.2
    have hnil := nothing_unread hprobes hI.talk.echoes hI.talk.kinds hfirst hms (hlogin hopen)
    rw [hnil, List.append_nil] at hms
    refine Inv.leave hsend hH.loop hH.socket hH.input hms ?_
    exact hI.talk.authorize rfl hH.before hlast hH.handled hH.delay (.inr ⟨rfl, hopen⟩)

/-- The host tells the controller that a login failed. -/
theorem Inv.deny (hp : p.Lawful) (hI : Inv p key W) (hH : Connected p key W H) (e : LoginError) :
    Inv p key (W.hostDoes (H.send p (.loginError e))) := by
  have hsend := hH.wired.send hp hH.loop (hI.controller_not_raw hH.before) (.loginError e)
  have hlast : (H.toEndpoint.send p (.loginError e)).1.sent = W.host.sent ++ [.loginError e] :=
    congrArg (· ++ _) hH.sent
  refine ⟨hsend, hI.talk.refuse hH.unauthorized hH.before hlast (by simp) (by simp) hH.handled
    hH.delay ?_⟩
  exact .inl ⟨hH.loop, hH.socket, hH.input⟩

variable {stream : FramedStream} {v : Verdict}

/-- A delay test that is still unread is open at the host. -/
theorem Inv.test_open (hI : Inv p key W)
    (hms : W.controller.sent = W.host.handled ++ .testDelay :: ms) :
    W.host.lastTestDelay = true := by
  by_contra hclear
  have hprobes := hI.talk.probes
  have hechoes := hI.talk.echoes
  have hle : W.controller.handled.count .testDelay ≤ W.host.sent.count .testDelay :=
    hI.wired.linkB.clean.2.sublist.count_le .testDelay
  rw [Bool.eq_false_iff.mpr hclear, Bool.toNat_false] at hprobes
  rw [hms, List.count_append, List.count_cons_self] at hechoes
  omega

/-- The host with the next message read. -/
def Host.heard (H : Host) (stream : FramedStream) (m : Message) : Host :=
  { H with stream := stream, handled := H.handled ++ [m] }

/-- A host that is logged in waits for the answer to its delay test, and for nothing else. -/
theorem Inv.handle_authorized (hI : Inv p key W) (hH : W.host.phase = .loop)
    (hauth : W.host.authorized = true) (hms : W.controller.sent = W.host.handled ++ m :: ms)
    (hw : Wired p key (W.host.heard stream m).toEndpoint W.controller.toEndpoint W.toHost
      W.toController) (hleave : W.host.LeavesOn m v → NoLogin ms) :
    Inv p key (W.hostDoes ((W.host.heard stream m).handle p m v)) := by
  obtain ⟨hopen, hsocket⟩ := hI.talk.waits hH hauth
  have hauth' : (W.host.heard stream m).authorized = true := hauth
  have hopen' : (W.host.heard stream m).lastTestDelay = true := hopen
  have hsocket' : (W.host.heard stream m).portForwardSocket = true := hsocket
  have hsilent : Wired p key (W.host.heard stream m).toEndpoint W.controller.toEndpoint W.toHost
      (W.toController ++ []) := by
    rwa [List.append_nil]
  rcases hI.talk.kinds m (hms ▸ List.mem_append_right _ List.mem_cons_self) with hisLogin | rfl
  · have hhandle : (W.host.heard stream m).handle p m v = (W.host.heard stream m, []) := by
      rcases eq_of_isLogin hisLogin with rfl | rfl <;>
        simp only [Host.handle, Host.onMessage, hauth', hopen', if_true, Bool.not_true,
          Bool.and_false, Bool.not_false, Bool.and_true]
    rw [hhandle]
    refine ⟨hsilent, hI.talk.ignore ?_ stream⟩
    rintro rfl
    cases hisLogin
  · have hhandle : (W.host.heard stream .testDelay).handle p .testDelay v =
        (Host.leave { W.host.heard stream .testDelay with lastTestDelay := false }, []) := by
      simp only [Host.handle, Host.onMessage, hauth', hsocket', Bool.not_false, Bool.and_true,
        Bool.not_true, Bool.and_false, Bool.false_eq_true, if_false]
    have hcount : W.host.sent.count .testDelay =
        (W.host.handled ++ [Message.testDelay]).count .testDelay := by
      rw [hI.talk.probes, hopen, List.count_append]
      rfl
    have hrest : W.controller.sent = W.host.handled ++ [.testDelay] ++ ms := by
      rw [hms, List.append_assoc, List.singleton_append]
    have hnil := nothing_unread hcount hI.talk.echoes hI.talk.kinds hI.wired.linkB.clean.2 hrest
      (hleave hauth)
    rw [hnil, List.append_nil] at hrest
    rw [hhandle]
    refine Inv.leave hsilent hH hsocket (hI.talk.unread hH) hrest ?_
    exact hI.talk.answered hopen rfl rfl rfl rfl (.inr ⟨hauth, rfl⟩)

/-- What a login message leads to at a connected host that is not logged in. -/
def Host.answer (p : Proto) (H : Host) (v : Verdict) : Host × Bytes :=
  match v with
  | .authorize =>
    if H.lastTestDelay then H.sendLogonResponse p
    else ((H.sendLogonResponse p).1.leave, (H.sendLogonResponse p).2)
  | .refuse e => H.send p (.loginError e)
  | _ => (H, [])

theorem handle_logon (hauth : H.authorized = false) (hsocket : H.portForwardSocket = true) :
    (if true && !((H.sendLogonResponse p).1.portForwardSocket &&
        (H.sendLogonResponse p).1.authorized && !(H.sendLogonResponse p).1.lastTestDelay)
      then ((H.sendLogonResponse p).1, (H.sendLogonResponse p).2)
      else ((H.sendLogonResponse p).1.leave, (H.sendLogonResponse p).2)) =
      H.answer p .authorize := by
  have hlogon : H.sendLogonResponse p = { H with authorized := true }.send p .peerInfo := by
    simp only [Host.sendLogonResponse, hauth, Bool.false_eq_true, if_false]
  have hbits : (H.sendLogonResponse p).1.portForwardSocket = true ∧
      (H.sendLogonResponse p).1.authorized = true ∧
      (H.sendLogonResponse p).1.lastTestDelay = H.lastTestDelay := by
    rw [hlogon]
    exact ⟨hsocket, rfl, rfl⟩
  simp only [hbits, Bool.true_and, Bool.and_self, Bool.not_not, Host.answer]

theorem handle_auth2fa (hauth : H.authorized = false) (hsocket : H.portForwardSocket = true) :
    H.handle p .auth2fa v = H.answer p v := by
  cases v with
  | authorize =>
    rw [← handle_logon hauth hsocket]
    simp only [Host.handle, Host.onMessage, hauth, Bool.false_eq_true, if_false]
  | refuse e =>
    simp only [Host.handle, Host.onMessage, Host.answer, send_eq, hauth, Bool.false_eq_true,
      if_false, Bool.and_false, Bool.false_and, Bool.not_false, Bool.and_true, if_true]
  | noTarget | offline | wait =>
    simp only [Host.handle, Host.onMessage, Host.answer, hauth, Bool.false_eq_true, if_false,
      Bool.and_false, Bool.false_and, Bool.not_false, Bool.and_true, if_true]

theorem handle_loginRequest (hauth : H.authorized = false) (htarget : v ≠ .noTarget)
    (hoffline : v ≠ .offline) :
    H.handle p .loginRequest v = { H with portForwardSocket := true }.answer p v := by
  cases v with
  | authorize =>
    rw [← handle_logon (by exact hauth) rfl]
    simp only [Host.handle, Host.onMessage, hauth, Bool.false_eq_true, if_false]
  | refuse e =>
    simp only [Host.handle, Host.onMessage, Host.answer, send_eq, hauth, Bool.false_eq_true,
      if_false, Bool.and_false, Bool.false_and, Bool.not_false, Bool.and_true, if_true]
  | wait =>
    simp only [Host.handle, Host.onMessage, Host.answer, hauth, Bool.false_eq_true, if_false,
      Bool.and_false, Bool.false_and, Bool.not_false, Bool.and_true, if_true]
  | noTarget => exact absurd rfl htarget
  | offline => exact absurd rfl hoffline

/-- A connected host that is not logged in lets the login in, says no, or waits. -/
theorem Inv.answer (hp : p.Lawful) (hI : Inv p key W) (hH : Connected p key W H)
    (hms : W.controller.sent = H.handled ++ ms)
    (hlogin : v = .authorize → H.lastTestDelay = false → NoLogin ms) :
    Inv p key (W.hostDoes (H.answer p v)) := by
  have hquiet : Inv p key (W.hostDoes (H, [])) := by
    have hnone : H.sent = W.host.sent ++ [] := by rw [List.append_nil, hH.sent]
    have hsilent : Wired p key H.toEndpoint W.controller.toEndpoint W.toHost
        (W.toController ++ []) := by
      rw [List.append_nil]
      exact hH.wired
    exact ⟨hsilent, hI.talk.refuse hH.unauthorized hH.before hnone (by simp) (by simp) hH.handled
      hH.delay (.inl ⟨hH.loop, hH.socket, hH.input⟩)⟩
  match v with
  | .authorize => exact hI.logon hp hH hms (hlogin rfl)
  | .refuse e => exact hI.deny hp hH e
  | .noTarget | .offline | .wait => exact hquiet

/-- A host that is not logged in handles the next message. -/
theorem Inv.handle_unauthorized (hp : p.Lawful) (hI : Inv p key W) (hH : W.host.phase = .loop)
    (hauth : W.host.authorized = false) (hms : W.controller.sent = W.host.handled ++ m :: ms)
    (hw : Wired p key (W.host.heard stream m).toEndpoint W.controller.toEndpoint W.toHost
      W.toController) (hoffline : m = .loginRequest → v ≠ .offline)
    (hleave : W.host.LeavesOn m v → NoLogin ms) :
    Inv p key (W.hostDoes ((W.host.heard stream m).handle p m v)) := by
  have hauth' : (W.host.heard stream m).authorized = false := hauth
  have hrest : W.controller.sent = (W.host.heard stream m).handled ++ ms := by
    rw [hms, Host.heard, List.append_assoc, List.singleton_append]
  have hmem : m ∈ W.controller.sent := hms ▸ List.mem_append_right _ List.mem_cons_self
  have hcount (hm : m ≠ .testDelay) :
      (W.host.handled ++ [m]).count .testDelay = W.host.handled.count .testDelay := by
    rw [List.count_append, List.count_singleton, beq_eq_false_iff_ne.mpr hm]
    rfl
  rcases hI.talk.kinds m hmem with hisLogin | rfl
  · rcases eq_of_isLogin hisLogin with rfl | rfl
    · by_cases hv : v = .noTarget
      · subst hv
        have hhandle : (W.host.heard stream .loginRequest).handle p .loginRequest .noTarget =
            (Host.leave ({ W.host.heard stream .loginRequest with
                portForwardSocket := false }.send p (.loginError .failed)).1,
              ({ W.host.heard stream .loginRequest with
                portForwardSocket := false }.send p (.loginError .failed)).2) := by
          simp only [Host.handle, Host.onMessage, hauth', send_eq, Bool.false_eq_true, if_false,
            Bool.false_and]
        have hsend := hw.send hp hH (hI.controller_not_raw hauth) (.loginError .failed)
        rw [hhandle]
        refine ⟨hsend.close hH, hI.talk.refuse hauth hauth rfl (by simp) (by simp)
          (hcount (by decide)) rfl (.inr rfl)⟩
      · rw [handle_loginRequest hauth' hv (hoffline rfl)]
        have hconnected : Connected p key W
            { W.host.heard stream .loginRequest with portForwardSocket := true } :=
          ⟨hw, hH, hauth, rfl, hI.talk.unread hH, hauth, rfl, hcount (by decide), rfl⟩
        exact hI.answer hp hconnected hrest fun hv hopen => hleave ⟨hauth, hv, hopen⟩
    · have hsocket := hI.talk.connected hH (.inr hmem)
      rw [handle_auth2fa hauth' hsocket]
      have hconnected : Connected p key W (W.host.heard stream .auth2fa) :=
        ⟨hw, hH, hauth, hsocket, hI.talk.unread hH, hauth, rfl, hcount (by decide), rfl⟩
      exact hI.answer hp hconnected hrest fun hv hopen => hleave ⟨hauth, hv, hopen⟩
  · have hhandle : (W.host.heard stream .testDelay).handle p .testDelay v =
        ({ W.host.heard stream .testDelay with lastTestDelay := false }, []) := by
      simp only [Host.handle, Host.onMessage, hauth', Bool.and_false, Bool.false_and,
        Bool.not_false, Bool.and_self, if_true]
    have hsilent : Wired p key (W.host.heard stream .testDelay).toEndpoint
        W.controller.toEndpoint W.toHost (W.toController ++ []) := by
      rwa [List.append_nil]
    rw [hhandle]
    exact ⟨hsilent, hI.talk.answered (hI.test_open hms) rfl rfl rfl rfl
      (.inl ⟨hauth, hH, hH, rfl, rfl⟩)⟩

/-- An event that leaves the host alone sends nothing either. -/
theorem Inv.host_idle (hI : Inv p key W) : Inv p key (W.hostDoes (W.host, [])) := by
  refine ⟨?_, hI.talk⟩
  have hw := hI.wired
  rwa [← List.append_nil W.toController] at hw

theorem Inv.pollHost (hp : p.Lawful) (hI : Inv p key W)
    (hsettled : W.Settled p (.pollHost v)) : Inv p key (W.hostDoes (W.host.poll p v)) := by
  cases hH : W.host.phase with
  | loop =>
    rcases hI.wired.next hp hH (hI.host_reads hH) with
      ⟨stream, hnext, hw⟩ | ⟨m, ms, stream, hms, hnext, hw⟩
    · have hpoll : W.host.poll p v = ({ W.host with stream := stream }, []) := by
        simp only [Host.poll, hH, hnext]
      have hsilent : Wired p key { W.host.toEndpoint with stream := stream }
          W.controller.toEndpoint W.toHost (W.toController ++ []) := by
        rwa [List.append_nil]
      rw [hpoll]
      exact ⟨hsilent, { hI.talk with }⟩
    · have hpoll : W.host.poll p v = (W.host.heard stream m).handle p m v := by
        simp only [Host.poll, hH, hnext, hp.parse_write, Host.heard]
      have hnextMessage : W.nextMessage p = some m := by
        simp only [World.nextMessage, hnext, hp.parse_write]
      obtain ⟨hoffline, hleave⟩ := hsettled hH m hnextMessage
      have hunread : W.unread.tail = ms := by
        rw [World.unread, hms, List.drop_left, List.tail_cons]
      rw [hunread] at hleave
      rw [hpoll]
      cases hauth : W.host.authorized with
      | true => exact hI.handle_authorized hH hauth hms hw hleave
      | false =>
        exact hI.handle_unauthorized hp hH hauth hms hw (fun hm => hoffline hm hauth) hleave
  | forward =>
    have hpoll : W.host.poll p v = ({ W.host with toEndpoint := W.host.forward p }, []) := by
      simp only [Host.poll, hH]
    obtain ⟨hphase, hsent, hhandled, -⟩ := forward_keeps p W.host.toEndpoint
    have hw := hI.wired.forward hH
    have hsilent : Wired p key (W.host.forward p) W.controller.toEndpoint W.toHost
        (W.toController ++ []) := by
      rwa [List.append_nil]
    rw [hpoll]
    exact ⟨hsilent, hI.talk.host_forwards hH hphase hsent hhandled⟩
  | closed =>
    have hpoll : W.host.poll p v = (W.host, []) := by simp only [Host.poll, hH]
    rw [hpoll]
    exact hI.host_idle

theorem Inv.authorize (hp : p.Lawful) (hI : Inv p key W) (henabled : W.Enabled .authorize)
    (hsettled : W.Settled p .authorize) : Inv p key (W.hostDoes (W.host.authorize p)) := by
  cases hH : W.host.phase with
  | loop =>
    have hsocket := henabled hH
    obtain ⟨hclear, hlogin⟩ := hsettled hH
    have hauth : W.host.authorized = false := by
      by_contra hyes
      rw [Bool.not_eq_false] at hyes
      rw [(hI.talk.waits hH hyes).1] at hclear
      cases hclear
    have hlogon : W.host.sendLogonResponse p =
        { W.host with authorized := true }.send p .peerInfo := by
      simp only [Host.sendLogonResponse, hauth, Bool.false_eq_true, if_false]
    have hauthorize : W.host.authorize p = (if W.host.lastTestDelay then W.host.sendLogonResponse p
        else ((W.host.sendLogonResponse p).1.leave, (W.host.sendLogonResponse p).2)) := by
      simp only [Host.authorize, hH, hlogon, send_eq, hsocket, hclear, if_true, Bool.false_eq_true,
        if_false]
    obtain ⟨-, -, ms, hms, -⟩ := (link_loop hH).mp hI.wired.linkA
    have hunread : W.unread = ms := by rw [World.unread, hms, List.drop_left]
    have hconnected : Connected p key W W.host :=
      ⟨hI.wired, hH, hauth, hsocket, hI.talk.unread hH, hauth, rfl, rfl, rfl⟩
    rw [hauthorize]
    exact hI.logon hp hconnected hms fun _ => hunread ▸ hlogin
  | forward | closed =>
    have hauthorize : W.host.authorize p = (W.host, []) := by simp only [Host.authorize, hH]
    rw [hauthorize]
    exact hI.host_idle

/-- A delay test is sent to a controller that reads messages. -/
theorem Inv.tick (hp : p.Lawful) (hI : Inv p key W) : Inv p key (W.hostDoes (W.host.tick p)) := by
  unfold Host.tick
  split_ifs with htick
  · obtain ⟨hH, hclear, -⟩ := htick
    have hauth : W.host.authorized = false := by
      by_contra hyes
      rw [Bool.not_eq_false] at hyes
      rw [(hI.talk.waits hH hyes).1] at hclear
      cases hclear
    have hsend := hI.wired.send hp hH (hI.controller_not_raw hauth) .testDelay
    have hsent : (W.host.toEndpoint.send p .testDelay).1.sent = W.host.sent ++ [.testDelay] := rfl
    refine ⟨hsend, ?_⟩
    have htalk := hI.talk
    exact
      { htalk with
        unauthorized := fun _ => ⟨by
          rw [World.hostDoes, send_eq, hsent, List.mem_append, not_or]
          exact ⟨(htalk.unauthorized hauth).1, by simp⟩, (htalk.unauthorized hauth).2⟩
        authorized := fun hyes => by simp [World.hostDoes, send_eq, hauth] at hyes
        waits := fun _ hyes => by simp [World.hostDoes, send_eq, hauth] at hyes
        settled := fun hforward => by cases hH.symm.trans hforward
        probes := by
          have hprobes := htalk.probes
          rw [hclear, Bool.toNat_false, Nat.add_zero] at hprobes
          rw [World.hostDoes, send_eq, hsent, List.count_append, hprobes]
          rfl
        connected := fun _ hasked => by
          refine htalk.connected hH (hasked.imp_left ?_)
          rintro ⟨e, he⟩
          rw [World.hostDoes, send_eq, hsent, List.mem_append] at he
          exact ⟨e, he.resolve_right (by simp)⟩ }
  · exact hI.host_idle

theorem Inv.readTarget (hI : Inv p key W) (bytes : Bytes) :
    Inv p key (W.hostDoes (W.host.readTarget bytes)) := by
  cases hH : W.host.phase with
  | forward =>
    have hread : W.host.readTarget bytes =
        ({ W.host with toEndpoint := (W.host.read bytes).1 }, (W.host.read bytes).2) := by
      simp only [Host.readTarget, hH]
    rw [hread]
    exact ⟨hI.wired.read hH bytes, hI.talk.host_forwards hH rfl rfl rfl⟩
  | loop | closed =>
    have hread : W.host.readTarget bytes = (W.host, []) := by simp only [Host.readTarget, hH]
    rw [hread]
    exact hI.host_idle

end HostSteps

section ControllerSteps

variable {W : World} {C : Controller} {ms : List Message} {stream : FramedStream}

theorem controller_send_eq (C : Controller) (m : Message) : C.send p m =
    ({ C with toEndpoint := (C.toEndpoint.send p m).1 }, (C.toEndpoint.send p m).2) := rfl

theorem Inv.controller_idle (hI : Inv p key W) :
    Inv p key (W.controllerDoes (W.controller, [])) := by
  refine ⟨?_, hI.talk⟩
  have hw := hI.wired
  rwa [← List.append_nil W.toHost] at hw

/-- A login message goes to a host that reads messages. -/
theorem Inv.login (hp : p.Lawful) (hI : Inv p key W) (henabled : W.Enabled (.login m))
    (hsettled : W.Settled p (.login m)) :
    Inv p key (W.controllerDoes (W.controller.login p m)) := by
  unfold Controller.login
  split_ifs with hC
  · have hsend := hI.wired.symm.send hp hC hsettled m
    have hsent : (W.controller.toEndpoint.send p m).1.sent = W.controller.sent ++ [m] := rfl
    have hisLogin : m.isLogin = true := by
      rcases henabled with rfl | ⟨rfl, -⟩ <;> rfl
    have htest : [m].count .testDelay = 0 := by
      rcases henabled with rfl | ⟨rfl, -⟩ <;> rfl
    refine ⟨hsend.symm, ?_⟩
    have htalk := hI.talk
    exact
      { htalk with
        echoes := by
          rw [World.controllerDoes, controller_send_eq, hsent, List.count_append, htest]
          exact htalk.echoes
        kinds := by
          intro m' hm'
          rw [World.controllerDoes, controller_send_eq, hsent, List.mem_append,
            List.mem_singleton] at hm'
          rcases hm' with hm' | rfl
          · exact htalk.kinds m' hm'
          · exact .inl hisLogin
        connected := by
          intro hH hasked
          rw [World.controllerDoes, controller_send_eq, hsent, List.mem_append,
            List.mem_singleton] at hasked
          rcases hasked with herror | hbefore | rfl
          · exact htalk.connected hH (.inl herror)
          · exact htalk.connected hH (.inr hbefore)
          · obtain ⟨-, hasked⟩ := henabled.resolve_left (by decide)
            obtain ⟨e, he⟩ := htalk.asked hasked
            exact htalk.connected hH (.inl ⟨e, hI.wired.linkB.clean.2.subset he⟩) }
  · exact hI.controller_idle

theorem Inv.readLocal (hI : Inv p key W) (bytes : Bytes) :
    Inv p key (W.controllerDoes (W.controller.readLocal bytes)) := by
  cases hC : W.controller.phase with
  | loop =>
    have hread : W.controller.readLocal bytes = ({ W.controller with
        buffer := W.controller.buffer ++ bytes, input := W.controller.input ++ bytes }, []) := by
      simp only [Controller.readLocal, hC]
    have hw := (hI.wired.symm.buffer hC (W.controller.input ++ bytes)).symm
    rw [← List.append_nil W.toHost] at hw
    rw [hread]
    refine ⟨hw, { hI.talk with buffered := fun _ => ?_ }⟩
    exact congrArg (· ++ bytes) (hI.talk.buffered hC)
  | forward =>
    have hread : W.controller.readLocal bytes =
        ({ W.controller with toEndpoint := (W.controller.read bytes).1 },
          (W.controller.read bytes).2) := by
      simp only [Controller.readLocal, hC]
    rw [hread]
    exact ⟨(hI.wired.symm.read hC bytes).symm, hI.talk.controller_forwards hC rfl rfl rfl⟩
  | closed =>
    have hread : W.controller.readLocal bytes = (W.controller, []) := by
      simp only [Controller.readLocal, hC]
    rw [hread]
    exact hI.controller_idle

/-- A host that forwards has no delay test out. -/
theorem Inv.host_not_raw (hI : Inv p key W)
    (hms : W.host.sent = W.controller.handled ++ .testDelay :: ms) : W.host.phase ≠ .forward := by
  intro hH
  obtain ⟨-, -, hall, -⟩ := (link_forward hH).mp hI.wired.linkA
  have hprobes := hI.talk.probes
  rw [hI.talk.settled hH, Bool.toNat_false, ← hall, hI.talk.echoes, hms, List.count_append,
    List.count_cons_self] at hprobes
  omega

/-- `PeerInfo` is the last message of the host. -/
theorem Inv.peerInfo_last (hI : Inv p key W)
    (hms : W.host.sent = W.controller.handled ++ .peerInfo :: ms) : ms = [] := by
  have hpeer : .peerInfo ∈ W.host.sent := hms ▸ List.mem_append_right _ List.mem_cons_self
  have hauth : W.host.authorized = true := by
    by_contra hno
    exact (hI.talk.unauthorized (Bool.eq_false_iff.mpr hno)).1 hpeer
  obtain ⟨l, hl, hnot⟩ := hI.talk.authorized hauth
  rcases List.eq_nil_or_concat ms with rfl | ⟨init, last, rfl⟩
  · rfl
  · have hsplit : l ++ [.peerInfo] = (W.controller.handled ++ .peerInfo :: init) ++ [last] := by
      rw [← hl, hms]
      simp
    obtain ⟨rfl, -⟩ := List.append_inj' hsplit rfl
    exact absurd (List.mem_append_right _ List.mem_cons_self) hnot

/-- The controller with the next message read. -/
def Controller.heard (C : Controller) (stream : FramedStream) (m : Message) : Controller :=
  { C with stream := stream, handled := C.handled ++ [m] }

theorem Inv.handle_controller (hp : p.Lawful) (hI : Inv p key W)
    (hC : W.controller.phase = .loop) (hms : W.host.sent = W.controller.handled ++ m :: ms)
    (hw : Wired p key (W.controller.heard stream m).toEndpoint W.host.toEndpoint W.toController
      W.toHost) :
    Inv p key (W.controllerDoes ((W.controller.heard stream m).handle p m)) := by
  have hsilent : Wired p key (W.controller.heard stream m).toEndpoint W.host.toEndpoint
      W.toController (W.toHost ++ []) := by
    rwa [List.append_nil]
  have hphase : (W.controller.heard stream m).phase ≠ .forward := by
    intro hforward
    cases hC.symm.trans hforward
  match m with
  | .hash | .permission | .loginRequest | .auth2fa =>
    exact ⟨hsilent.symm, hI.talk.hears hC (by decide) (by decide) rfl rfl hphase .inl rfl rfl⟩
  | .loginError e =>
    cases hagain : e.tryAgain with
    | true =>
      have hhandle : (W.controller.heard stream (.loginError e)).handle p (.loginError e) =
          ({ W.controller.heard stream (.loginError e) with
            asked2fa := W.controller.asked2fa || e ∈ [.require2fa, .wrong2fa] }, []) := by
        simp only [Controller.handle, hagain, if_true]
        rfl
      rw [hhandle]
      exact ⟨hsilent.symm, hI.talk.hears hC (by simp) (by simp) rfl rfl hphase
        (fun _ => .inr ⟨e, rfl⟩) rfl rfl⟩
    | false =>
      have hhandle : (W.controller.heard stream (.loginError e)).handle p (.loginError e) =
          ({ W.controller.heard stream (.loginError e) with phase := .closed }, []) := by
        simp only [Controller.handle, hagain, Bool.false_eq_true, if_false]
      rw [hhandle]
      exact ⟨(hsilent.close hC).symm, hI.talk.hears hC (by simp) (by simp) rfl rfl
        (fun hforward : Phase.closed = .forward => by cases hforward) .inl rfl rfl⟩
  | .peerInfo =>
    have hall : W.host.sent = (W.controller.heard stream .peerInfo).handled := by
      rw [hms, hI.peerInfo_last hms]
      rfl
    have hbuffer : (if W.controller.buffer.isEmpty then []
        else (W.controller.heard stream .peerInfo).setRaw.stream.sendBytes W.controller.buffer) =
        W.controller.input := by
      rw [sendBytes_raw rfl, hI.talk.buffered hC]
      cases W.controller.input <;> rfl
    have hhandle : (W.controller.heard stream .peerInfo).handle p .peerInfo =
        ({ W.controller.heard stream .peerInfo with
          toEndpoint := (W.controller.heard stream .peerInfo).setRaw, buffer := [] },
          W.controller.input) := by
      rw [← hbuffer]
      rfl
    rw [hhandle]
    exact ⟨(hw.setRaw hC hall).symm, hI.talk.goes_ahead rfl rfl rfl rfl⟩
  | .testDelay =>
    have hsend := hw.send hp hC (hI.host_not_raw hms) .testDelay
    refine ⟨hsend.symm, ?_⟩
    have htalk := hI.talk
    exact
      { htalk with
        echoes := by
          have hechoes := htalk.echoes
          change (W.controller.sent ++ [_]).count _ = (W.controller.handled ++ [_]).count _
          rw [List.count_append, List.count_append, hechoes]
        kinds := by
          intro m hm
          rcases List.mem_append.mp hm with hm | hm
          · exact htalk.kinds m hm
          · exact .inr (List.mem_singleton.mp hm)
        switched := by
          refine htalk.switched.trans ⟨List.mem_append_left _, fun hpeer => ?_⟩
          exact (List.mem_append.mp hpeer).resolve_right (by simp)
        asked := fun hyes => by
          obtain ⟨e, he⟩ := htalk.asked hyes
          exact ⟨e, List.mem_append_left _ he⟩
        connected := fun hH hasked => by
          refine htalk.connected hH (hasked.imp_right fun hmem => ?_)
          exact (List.mem_append.mp hmem).resolve_right (by simp) }

theorem Inv.pollController (hp : p.Lawful) (hI : Inv p key W) :
    Inv p key (W.controllerDoes (W.controller.poll p)) := by
  cases hC : W.controller.phase with
  | loop =>
    rcases hI.wired.symm.next hp hC (hI.controller_reads hC) with
      ⟨stream, hnext, hw⟩ | ⟨m, ms, stream, hms, hnext, hw⟩
    · have hpoll : W.controller.poll p = ({ W.controller with stream := stream }, []) := by
        simp only [Controller.poll, hC, hnext]
      have hsilent : Wired p key { W.controller.toEndpoint with stream := stream }
          W.host.toEndpoint W.toController (W.toHost ++ []) := by
        rwa [List.append_nil]
      rw [hpoll]
      exact ⟨hsilent.symm, { hI.talk with }⟩
    · have hpoll : W.controller.poll p = (W.controller.heard stream m).handle p m := by
        simp only [Controller.poll, hC, hnext, hp.parse_write, Controller.heard]
      rw [hpoll]
      exact hI.handle_controller hp hC hms hw
  | forward =>
    have hpoll : W.controller.poll p =
        ({ W.controller with toEndpoint := W.controller.forward p }, []) := by
      simp only [Controller.poll, hC]
    obtain ⟨hphase, hsent, hhandled, -⟩ := forward_keeps p W.controller.toEndpoint
    have hw := (hI.wired.symm.forward hC).symm
    rw [← List.append_nil W.toHost] at hw
    rw [hpoll]
    exact ⟨hw, hI.talk.controller_forwards hC hphase hsent hhandled⟩
  | closed =>
    have hpoll : W.controller.poll p = (W.controller, []) := by simp only [Controller.poll, hC]
    rw [hpoll]
    exact hI.controller_idle

end ControllerSteps

section Runs

variable {W : World}

/-- The messages the host opens with. -/
theorem greeting_wired (hp : p.Lawful) (ms : List Message)
    (hw : Wired p key W.host.toEndpoint W.controller.toEndpoint W.toHost W.toController)
    (hH : W.host.phase = .loop) (hC : W.controller.phase = .loop) :
    let W' := ms.foldl (fun W m => W.hostDoes (W.host.send p m)) W
    Wired p key W'.host.toEndpoint W'.controller.toEndpoint W'.toHost W'.toController ∧
      W'.controller = W.controller ∧ ∃ stream,
        W'.host = { W.host with stream := stream, sent := W.host.sent ++ ms } := by
  induction ms generalizing W with
  | nil =>
    refine ⟨hw, rfl, W.host.stream, ?_⟩
    rw [List.append_nil]
    rfl
  | cons m ms ih =>
    have hsend := hw.send hp hH (by rw [hC]; decide) m
    have hnext := ih (W := W.hostDoes (W.host.send p m)) hsend hH hC
    obtain ⟨hwired, hcontroller, stream, hhost⟩ := hnext
    refine ⟨hwired, hcontroller, stream, hhost.trans ?_⟩
    rw [← List.singleton_append, ← List.append_assoc]
    rfl

theorem inv_start (hp : p.Lawful) (key : Option Bytes) (denied : Nat) :
    Inv p key (World.start p key denied) := by
  have hcount : Counted key { stream := .start key : Endpoint } := by cases key <;> rfl
  have hlink : Link p key { stream := .start key } { stream := .start key } [] :=
    ⟨rfl, rfl, [], rfl, ⟨rfl, rfl⟩, rfl⟩
  obtain ⟨hwired, hcontroller, stream, hhost⟩ :=
    greeting_wired (W := ⟨{ stream := .start key }, { stream := .start key }, [], []⟩) hp
      (.hash :: List.replicate denied .permission)
      ⟨fun _ => hcount, fun _ => hcount, hlink, hlink⟩ rfl rfl
  have hsent : (World.start p key denied).host.sent =
      .hash :: List.replicate denied .permission := by
    rw [World.start, hhost]
    rfl
  have hquiet (m : Message) (hhash : m ≠ .hash) (hpermission : m ≠ .permission) :
      m ∉ (World.start p key denied).host.sent := by
    rw [hsent, List.mem_cons, List.mem_replicate]
    exact fun hm => hm.elim hhash fun hm => hpermission hm.2
  refine ⟨hwired, ?_⟩
  have hC : (World.start p key denied).controller = { stream := .start key } := hcontroller
  have hH : (World.start p key denied).host = { stream := stream, sent := _ } := hhost
  constructor
  · intro _
    refine ⟨hquiet _ (by simp) (by simp), ?_⟩
    rw [hH]
    simp
  · rw [hH]
    simp
  · rw [hH]
    simp
  · rw [hH]
    simp
  · rw [List.count_eq_zero_of_not_mem (hquiet _ (by simp) (by simp)), hH]
    rfl
  · rw [hC]
  · rw [hC]
    simp
  · rw [hC]
    simp
  · rw [hC]
    simp
  · rintro - (⟨e, he⟩ | hauth)
    · exact absurd he (hquiet _ (by simp) (by simp))
    · rw [hC] at hauth
      cases hauth
  · rw [hH]
    simp
  · rw [hC]
    simp

theorem Inv.step (hp : p.Lawful) (hI : Inv p key W) (e : Event) (henabled : W.Enabled e)
    (hsettled : W.Settled p e) : Inv p key (W.step p e) :=
  match e with
  | .arriveHost n => ⟨hI.wired.arrive n, { hI.talk with }⟩
  | .arriveController n => ⟨(hI.wired.symm.arrive n).symm, { hI.talk with }⟩
  | .pollHost _ => hI.pollHost hp hsettled
  | .pollController => hI.pollController hp
  | .tick => hI.tick hp
  | .authorize => hI.authorize hp henabled hsettled
  | .readTarget bytes => hI.readTarget bytes
  | .login _ => hI.login hp henabled hsettled
  | .readLocal bytes => hI.readLocal bytes

theorem Inv.clean (hI : Inv p key W) : W.Clean where
  target := hI.wired.linkA.clean.1
  socket := hI.wired.linkB.clean.1
  handledHost := hI.wired.linkA.clean.2
  handledController := hI.wired.linkB.clean.2

/-- The streams of a port-forward session are clean in every run of a login in which nothing
framed is left for a host that has left its loop. -/
theorem streams_clean (p : Proto) (hp : p.Lawful) (key : Option Bytes) (denied : Nat)
    {es : List Event}
    (hes : Allowed (World.step p) (fun W e => W.Enabled e ∧ W.Settled p e)
      (World.start p key denied) es) :
    (run (World.step p) (World.start p key denied) es).Clean := by
  have hI : Inv p key (run (World.step p) (World.start p key denied) es) :=
    run_keeps (fun _ e hI he => hI.step hp e he.1 he.2) (inv_start hp key denied) hes
  exact hI.clean

/-- A message format and a cipher for runs on small inputs. -/
def sampleProto : Proto where
  write m := [UInt8.ofNat (code m)]
  parse bytes := match bytes with
    | [b] => messages[b.toNat]?
    | _ => none
  box := Channel.sampleBox
where
  messages : List Message :=
    [.hash, .permission, .peerInfo, .testDelay, .loginRequest, .auth2fa,
      .loginError .passwordEmpty, .loginError .passwordWrong, .loginError .require2fa,
      .loginError .wrong2fa, .loginError .noPasswordAccess, .loginError .desktopNotReady,
      .loginError .offline, .loginError .failed]
  code (m : Message) : Nat := messages.idxOf m

theorem sampleProto_lawful : sampleProto.Lawful where
  parse_write m := by
    cases m with
    | loginError e => cases e <;> rfl
    | _ => rfl
  opens := Channel.sampleBox_lawful
  short _ := by simp [sampleProto]
  sealed m n _ := by
    have hnonce : (Encrypt.getNonce n).length = 24 := by simp [Encrypt.getNonce]
    simp [sampleProto, Channel.sampleBox, hnonce]

/-- The password comes while a delay test is open: the host waits for the answer. -/
def waited : List Event :=
  [.arriveController 100, .pollController, .login .loginRequest, .tick, .arriveHost 100,
    .pollHost .authorize, .readLocal [1, 2], .arriveController 100, .pollController,
    .pollController, .readLocal [3], .arriveHost 30, .pollHost .wait, .readTarget [4],
    .arriveHost 100, .pollHost .wait, .arriveController 100, .pollController]

theorem streams_clean_sample :
    (run (World.step sampleProto) (World.start sampleProto (some [7]) 0) waited).host.output =
      [1, 2, 3] ∧
    (run (World.step sampleProto) (World.start sampleProto (some [7]) 0) waited).Clean :=
  ⟨by decide +kernel, streams_clean sampleProto sampleProto_lawful (some [7]) 0 (by decide +kernel)⟩

/-- The connection manager lets the login in while the answer to a delay test is on its way. -/
def accepted : List Event :=
  [.arriveController 100, .pollController, .login .loginRequest, .arriveHost 100, .pollHost .wait,
    .tick, .arriveController 100, .pollController, .authorize, .arriveHost 100, .pollHost .wait]

/-- The host writes the answer to the target. -/
theorem answer_injected : ¬ ∀ (p : Proto), p.Lawful → ∀ (key : Option Bytes) (denied : Nat)
    (es : List Event), Allowed (World.step p) World.Enabled (World.start p key denied) es →
      (run (World.step p) (World.start p key denied) es).host.output <+:
        (run (World.step p) (World.start p key denied) es).controller.input := by
  intro hall
  have hfirst := hall sampleProto sampleProto_lawful (some [7]) 0 accepted (by decide +kernel)
  exact absurd hfirst (by decide +kernel)

end Runs

end MDesk.Net.PortForward
