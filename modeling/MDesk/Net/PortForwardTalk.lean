import MDesk.Net.PortForwardLink

/-!
# What the ends of a port-forward session say to each other

An end may make its side raw once nothing framed is on its way to it. The stream arm of the
host's loop sees to that for delay tests, which it waits out; the connection manager's arm
leaves the loop at once, and neither looks out for a login message that is still coming.
-/

namespace MDesk.Net.PortForward

open MDesk.Core

variable {p : Proto} {key : Option Bytes} {m : Message}

/-- The messages the controller has sent and the host has not handled. -/
def World.unread (W : World) : List Message := W.controller.sent.drop W.host.handled.length

theorem eq_of_isLogin (h : m.isLogin = true) : m = .loginRequest ∨ m = .auth2fa := by
  cases m <;> first
    | exact .inl rfl
    | exact .inr rfl
    | cases h

/-- The message the host handles next, once it has arrived. -/
def World.nextMessage (p : Proto) (W : World) : Option Message :=
  match (W.host.stream.next p.box).1 with
  | .item bytes => p.parse bytes
  | _ => none

/-- The message ends the host's loop in a session that is authorized. -/
def Host.LeavesOn (H : Host) (m : Message) (v : Verdict) : Prop :=
  match m with
  | .loginRequest | .auth2fa =>
    H.authorized = false ∧ v = .authorize ∧ H.lastTestDelay = false
  | .testDelay => H.authorized = true
  | _ => False

instance (H : Host) (m : Message) (v : Verdict) : Decidable (H.LeavesOn m v) :=
  match m with
  | .loginRequest | .auth2fa =>
    inferInstanceAs (Decidable (H.authorized = false ∧ v = .authorize ∧ H.lastTestDelay = false))
  | .testDelay => inferInstanceAs (Decidable (H.authorized = true))
  | .hash | .permission | .loginError _ | .peerInfo => .isFalse id

/-- A login for port forwarding: the user answers what was asked for, and the connection manager
shows a request that has come in. -/
def World.Enabled (W : World) : Event → Prop
  | .login m => m = .loginRequest ∨ m = .auth2fa ∧ W.controller.asked2fa = true
  | .authorize => W.host.phase = .loop → W.host.portForwardSocket = true
  | _ => True

instance (W : World) (e : Event) : Decidable (W.Enabled e) :=
  match e with
  | .login m =>
    inferInstanceAs (Decidable (m = .loginRequest ∨ m = .auth2fa ∧ W.controller.asked2fa = true))
  | .authorize =>
    inferInstanceAs (Decidable (W.host.phase = .loop → W.host.portForwardSocket = true))
  | .arriveHost _ | .arriveController _ | .pollHost _ | .pollController | .tick | .readTarget _
  | .readLocal _ => .isTrue trivial

def NoLogin (ms : List Message) : Prop := ∀ m ∈ ms, m.isLogin = false

instance (ms : List Message) : Decidable (NoLogin ms) :=
  inferInstanceAs (Decidable (∀ m ∈ ms, m.isLogin = false))

/-- Where the streams stay clean: no login message is under way when the host leaves its loop nor
sent later, no delay test is open when the connection manager makes it leave, and it does not
leave with a login refused and the target connected. -/
def World.Settled (p : Proto) (W : World) : Event → Prop
  | .login _ => W.host.phase ≠ .forward
  | .authorize => W.host.phase = .loop → W.host.lastTestDelay = false ∧ NoLogin W.unread
  | .pollHost v => W.host.phase = .loop → ∀ m ∈ W.nextMessage p,
      (m = .loginRequest → W.host.authorized = false → v ≠ .offline) ∧
      (W.host.LeavesOn m v → NoLogin W.unread.tail)
  | _ => True

instance (p : Proto) (W : World) (e : Event) : Decidable (W.Settled p e) :=
  match e with
  | .login _ => inferInstanceAs (Decidable (W.host.phase ≠ .forward))
  | .authorize => inferInstanceAs (Decidable (W.host.phase = .loop →
      W.host.lastTestDelay = false ∧ NoLogin W.unread))
  | .pollHost v => inferInstanceAs (Decidable (W.host.phase = .loop → ∀ m ∈ W.nextMessage p,
      (m = .loginRequest → W.host.authorized = false → v ≠ .offline) ∧
      (W.host.LeavesOn m v → NoLogin W.unread.tail)))
  | .arriveHost _ | .arriveController _ | .pollController | .tick | .readTarget _
  | .readLocal _ => .isTrue trivial

/-- What comes out at either end is the first of what went in at the other: bytes of the sockets
as bytes, messages as messages. -/
structure World.Clean (W : World) : Prop where
  target : W.host.output <+: W.controller.input
  socket : W.controller.output <+: W.host.input
  handledHost : W.host.handled <+: W.controller.sent
  handledController : W.controller.handled <+: W.host.sent

/-- What the two ends have said to each other so far. -/
structure Talk (H : Host) (C : Controller) : Prop where
  unauthorized : H.authorized = false → .peerInfo ∉ H.sent ∧ H.phase ≠ .forward
  authorized : H.authorized = true → ∃ l, H.sent = l ++ [.peerInfo] ∧ .peerInfo ∉ l
  waits : H.phase = .loop → H.authorized = true →
    H.lastTestDelay = true ∧ H.portForwardSocket = true
  settled : H.phase = .forward → H.lastTestDelay = false
  probes : H.sent.count .testDelay = H.handled.count .testDelay + H.lastTestDelay.toNat
  echoes : C.sent.count .testDelay = C.handled.count .testDelay
  kinds : ∀ m ∈ C.sent, m.isLogin = true ∨ m = .testDelay
  switched : C.phase = .forward ↔ .peerInfo ∈ C.handled
  asked : C.asked2fa = true → ∃ e, .loginError e ∈ C.handled
  connected : H.phase = .loop → ((∃ e, .loginError e ∈ H.sent) ∨ .auth2fa ∈ C.sent) →
    H.portForwardSocket = true
  unread : H.phase = .loop → H.input = []
  buffered : C.phase = .loop → C.buffer = C.input

structure Inv (p : Proto) (key : Option Bytes) (W : World) : Prop where
  wired : Wired p key W.host.toEndpoint W.controller.toEndpoint W.toHost W.toController
  talk : Talk W.host W.controller

section Facts

variable {W : World}

/-- An authorized host in its loop has an answer to its delay test still to come, before any raw
bytes. -/
theorem Inv.host_reads (hI : Inv p key W) (hH : W.host.phase = .loop)
    (hall : W.controller.sent = W.host.handled) : W.controller.rawSent = [] := by
  cases hC : W.controller.phase with
  | loop | closed => simp only [Endpoint.rawSent, hC]
  | forward =>
    exfalso
    have hpeer := hI.talk.switched.mp hC
    obtain ⟨-, -, hsent, -⟩ := (link_forward hC).mp hI.wired.linkB
    have hauth : W.host.authorized = true := by
      by_contra hno
      rw [← hsent] at hpeer
      exact (hI.talk.unauthorized (Bool.eq_false_iff.mpr hno)).1 hpeer
    have hopen := (hI.talk.waits hH hauth).1
    have hprobes := hI.talk.probes
    rw [hopen, hsent, ← hI.talk.echoes, hall, Bool.toNat_true] at hprobes
    omega

/-- The controller has `PeerInfo` still to come, before any raw bytes. -/
theorem Inv.controller_reads (hI : Inv p key W) (hC : W.controller.phase = .loop)
    (hall : W.host.sent = W.controller.handled) : W.host.rawSent = [] := by
  cases hH : W.host.phase with
  | loop | closed => simp only [Endpoint.rawSent, hH]
  | forward =>
    exfalso
    have hauth : W.host.authorized = true := by
      by_contra hno
      exact (hI.talk.unauthorized (Bool.eq_false_iff.mpr hno)).2 hH
    obtain ⟨l, hl, -⟩ := hI.talk.authorized hauth
    have hpeer : .peerInfo ∈ W.controller.handled := by
      rw [← hall, hl]
      exact List.mem_append_right _ (List.mem_singleton_self _)
    cases hC.symm.trans (hI.talk.switched.mpr hpeer)

/-- Before `PeerInfo` the controller reads messages. -/
theorem Inv.controller_not_raw (hI : Inv p key W) (hauth : W.host.authorized = false) :
    W.controller.phase ≠ .forward := by
  intro hC
  have hpeer := hI.talk.switched.mp hC
  exact (hI.talk.unauthorized hauth).1 (hI.wired.linkB.clean.2.subset hpeer)

/-- A host with no delay test open and no login message to come has handled everything. -/
theorem nothing_unread {sent handled ms : List Message} {C : Controller}
    (hprobes : sent.count .testDelay = handled.count .testDelay)
    (hechoes : C.sent.count .testDelay = C.handled.count .testDelay)
    (hkinds : ∀ m ∈ C.sent, m.isLogin = true ∨ m = .testDelay) (hfirst : C.handled <+: sent)
    (hms : C.sent = handled ++ ms) (hlogin : NoLogin ms) : ms = [] := by
  refine List.eq_nil_iff_forall_not_mem.mpr fun m hm => ?_
  have hle : C.handled.count .testDelay ≤ sent.count .testDelay :=
    hfirst.sublist.count_le .testDelay
  rcases hkinds m (hms ▸ List.mem_append_right _ hm) with hisLogin | rfl
  · rw [hlogin m hm] at hisLogin
    cases hisLogin
  · have hpos : 0 < ms.count .testDelay := List.count_pos_iff.mpr hm
    rw [hms, List.count_append] at hechoes
    omega

end Facts

section Talking

variable {H H' : Host} {C : Controller}

/-- An unauthorized host answers a login with an error or not at all. -/
theorem Talk.refuse (h : Talk H C) {extra : List Message} (hauth : H'.authorized = false)
    (hbefore : H.authorized = false) (hsent : H'.sent = H.sent ++ extra)
    (hpeer : .peerInfo ∉ extra) (htest : .testDelay ∉ extra)
    (hhandled : H'.handled.count .testDelay = H.handled.count .testDelay)
    (hdelay : H'.lastTestDelay = H.lastTestDelay)
    (hphase : H'.phase = .loop ∧ H'.portForwardSocket = true ∧ H'.input = [] ∨
      H'.phase = .closed) : Talk H' C :=
  { h with
    unauthorized _ := by
      refine ⟨?_, ?_⟩
      · rw [hsent, List.mem_append, not_or]
        exact ⟨(h.unauthorized hbefore).1, hpeer⟩
      · rcases hphase with ⟨hloop, -⟩ | hclosed
        · simp [hloop]
        · simp [hclosed]
    authorized hyes := by simp [hauth] at hyes
    waits _ hyes := by simp [hauth] at hyes
    settled hforward := by
      rcases hphase with ⟨hloop, -⟩ | hclosed
      · cases hforward.symm.trans hloop
      · cases hforward.symm.trans hclosed
    probes := by
      rw [hsent, List.count_append, List.count_eq_zero_of_not_mem htest, hhandled, hdelay]
      exact h.probes
    connected hloop _ := by
      rcases hphase with ⟨-, hsocket, -⟩ | hclosed
      · exact hsocket
      · cases hloop.symm.trans hclosed
    unread hloop := by
      rcases hphase with ⟨-, -, hinput⟩ | hclosed
      · exact hinput
      · cases hloop.symm.trans hclosed }

/-- An authorized host has sent `PeerInfo` last; it goes on only with a delay test open. -/
theorem Talk.authorize (h : Talk H C) (hauth : H'.authorized = true)
    (hbefore : H.authorized = false) (hsent : H'.sent = H.sent ++ [.peerInfo])
    (hhandled : H'.handled.count .testDelay = H.handled.count .testDelay)
    (hdelay : H'.lastTestDelay = H.lastTestDelay)
    (hphase : H'.phase = .loop ∧ H'.portForwardSocket = true ∧ H'.lastTestDelay = true ∧
        H'.input = [] ∨
      H'.phase = .forward ∧ H'.lastTestDelay = false) : Talk H' C :=
  { h with
    unauthorized hno := by simp [hauth] at hno
    authorized _ := ⟨H.sent, hsent, (h.unauthorized hbefore).1⟩
    waits hloop _ := by
      rcases hphase with ⟨-, hsocket, hopen, -⟩ | ⟨hforward, -⟩
      · exact ⟨hopen, hsocket⟩
      · cases hloop.symm.trans hforward
    settled hforward := by
      rcases hphase with ⟨hloop, -⟩ | ⟨-, hclear⟩
      · cases hforward.symm.trans hloop
      · exact hclear
    probes := by
      have htest : [Message.peerInfo].count .testDelay = 0 := rfl
      rw [hsent, List.count_append, htest, hhandled, hdelay]
      exact h.probes
    connected hloop _ := by
      rcases hphase with ⟨-, hsocket, -⟩ | ⟨hforward, -⟩
      · exact hsocket
      · cases hloop.symm.trans hforward
    unread hloop := by
      rcases hphase with ⟨-, -, -, hinput⟩ | ⟨hforward, -⟩
      · exact hinput
      · cases hloop.symm.trans hforward }

/-- The answer to a delay test: an authorized host goes on to forward. -/
theorem Talk.answered (h : Talk H C) (hopen : H.lastTestDelay = true)
    (hauth : H'.authorized = H.authorized) (hsent : H'.sent = H.sent)
    (hhandled : H'.handled = H.handled ++ [.testDelay]) (hdelay : H'.lastTestDelay = false)
    (hphase : H.authorized = false ∧ H.phase = .loop ∧ H'.phase = .loop ∧
        H'.portForwardSocket = H.portForwardSocket ∧ H'.input = H.input ∨
      H.authorized = true ∧ H'.phase = .forward) : Talk H' C :=
  { h with
    unauthorized hno := by
      rw [hsent]
      refine ⟨(h.unauthorized (hauth ▸ hno)).1, ?_⟩
      rcases hphase with ⟨-, -, hloop, -⟩ | ⟨hyes, -⟩
      · simp [hloop]
      · simp [hauth, hyes] at hno
    authorized hyes := by
      rw [hsent]
      exact h.authorized (hauth ▸ hyes)
    waits hloop hyes := by
      rcases hphase with ⟨hno, -⟩ | ⟨-, hforward⟩
      · simp [hauth, hno] at hyes
      · cases hloop.symm.trans hforward
    settled _ := hdelay
    probes := by
      have hprobes := h.probes
      rw [hopen, Bool.toNat_true] at hprobes
      rw [hsent, hhandled, List.count_append, hdelay, hprobes]
      rfl
    connected hloop hasked := by
      rcases hphase with ⟨-, hbefore, -, hsocket, -⟩ | ⟨-, hforward⟩
      · rw [hsocket]
        exact h.connected hbefore (hsent ▸ hasked)
      · cases hloop.symm.trans hforward
    unread hloop := by
      rcases hphase with ⟨-, hbefore, -, -, hinput⟩ | ⟨-, hforward⟩
      · rw [hinput]
        exact h.unread hbefore
      · cases hloop.symm.trans hforward }

/-- What a forwarding end does is no talk. -/
theorem Talk.host_forwards (h : Talk H C) (hH : H.phase = .forward) {E : Endpoint}
    (hphase : E.phase = H.phase) (hsent : E.sent = H.sent) (hhandled : E.handled = H.handled) :
    Talk { H with toEndpoint := E } C :=
  { h with
    unauthorized hno := by
      rw [hphase, hsent]
      exact h.unauthorized hno
    authorized hyes := by
      rw [hsent]
      exact h.authorized hyes
    waits hloop := by cases (hphase.trans hH).symm.trans hloop
    settled _ := h.settled hH
    probes := by
      rw [hsent, hhandled]
      exact h.probes
    connected hloop := by cases (hphase.trans hH).symm.trans hloop
    unread hloop := by cases (hphase.trans hH).symm.trans hloop }

theorem Talk.controller_forwards (h : Talk H C) (hC : C.phase = .forward) {E : Endpoint}
    (hphase : E.phase = C.phase) (hsent : E.sent = C.sent) (hhandled : E.handled = C.handled) :
    Talk H { C with toEndpoint := E } :=
  { h with
    echoes := by
      rw [hsent, hhandled]
      exact h.echoes
    kinds := by
      rw [hsent]
      exact h.kinds
    switched := by
      rw [hphase, hhandled]
      exact h.switched
    asked := by
      rw [hhandled]
      exact h.asked
    connected := by
      rw [hsent]
      exact h.connected
    buffered hloop := by cases (hphase.trans hC).symm.trans hloop }

/-- A login message that the host makes nothing of. -/
theorem Talk.ignore (h : Talk H C) (hm : m ≠ .testDelay) (stream : FramedStream) :
    Talk { H with stream := stream, handled := H.handled ++ [m] } C :=
  { h with
    probes := by
      have hcount : (H.handled ++ [m]).count .testDelay = H.handled.count .testDelay := by
        rw [List.count_append, List.count_singleton, beq_eq_false_iff_ne.mpr hm]
        rfl
      exact h.probes.trans (by rw [hcount]) }

variable {C' : Controller}

/-- What a controller in its loop hears, unless it is the host's go-ahead. -/
theorem Talk.hears (h : Talk H C) (hC : C.phase = .loop) (htest : m ≠ .testDelay)
    (hpeer : m ≠ .peerInfo) (hsent : C'.sent = C.sent) (hhandled : C'.handled = C.handled ++ [m])
    (hphase : C'.phase ≠ .forward)
    (hasked : C'.asked2fa = true → C.asked2fa = true ∨ ∃ e, m = .loginError e)
    (hbuffer : C'.buffer = C.buffer) (hinput : C'.input = C.input) : Talk H C' :=
  { h with
    echoes := by
      rw [hsent, hhandled, List.count_append, List.count_singleton, beq_eq_false_iff_ne.mpr htest]
      exact h.echoes
    kinds := by
      rw [hsent]
      exact h.kinds
    switched := by
      refine iff_of_false hphase ?_
      rw [hhandled, List.mem_append, List.mem_singleton, not_or]
      refine ⟨fun hbefore => ?_, fun heq => hpeer heq.symm⟩
      cases hC.symm.trans (h.switched.mpr hbefore)
    asked hyes := by
      rw [hhandled]
      rcases hasked hyes with hbefore | ⟨e, rfl⟩
      · obtain ⟨e, he⟩ := h.asked hbefore
        exact ⟨e, List.mem_append_left _ he⟩
      · exact ⟨e, List.mem_append_right _ (List.mem_singleton_self _)⟩
    connected := by
      rw [hsent]
      exact h.connected
    buffered _ := by
      rw [hbuffer, hinput]
      exact h.buffered hC }

/-- `PeerInfo` makes the controller forward. -/
theorem Talk.goes_ahead (h : Talk H C) (hsent : C'.sent = C.sent)
    (hhandled : C'.handled = C.handled ++ [.peerInfo]) (hphase : C'.phase = .forward)
    (hasked : C'.asked2fa = C.asked2fa) : Talk H C' :=
  { h with
    echoes := by
      have hcount : [Message.peerInfo].count .testDelay = 0 := rfl
      rw [hsent, hhandled, List.count_append, hcount]
      exact h.echoes
    kinds := by
      rw [hsent]
      exact h.kinds
    switched := by
      refine iff_of_true hphase ?_
      rw [hhandled]
      exact List.mem_append_right _ (List.mem_singleton_self _)
    asked hyes := by
      obtain ⟨e, he⟩ := h.asked (hasked ▸ hyes)
      rw [hhandled]
      exact ⟨e, List.mem_append_left _ he⟩
    connected := by
      rw [hsent]
      exact h.connected
    buffered hloop := by cases hphase.symm.trans hloop }

end Talking

end MDesk.Net.PortForward
