import MDesk.Net.PortForward

/-!
# What is on its way in a port-forward session

What one end has sent and the other has not handled is on its way, message by message, with
the raw bytes behind them. Each thing an end can do keeps this so, if the other end is ready
for it.
-/

namespace MDesk.Net.PortForward

open MDesk.Core

/-- What the session relies on: messages read back as written, and frames of a size that the
codec takes and the cipher opens. -/
structure Proto.Lawful (p : Proto) : Prop where
  parse_write : ∀ m, p.parse (p.write m) = some m
  opens : p.box.Lawful
  short : ∀ m, (p.write m).length ≤ 0x3FFFFFFF
  sealed : ∀ m n key, 2 ≤ (p.box.sealBox (p.write m) (Encrypt.getNonce n) key).length ∧
    (p.box.sealBox (p.write m) (Encrypt.getNonce n) key).length ≤ 0x3FFFFFFF

variable {p : Proto} {key : Option Bytes} {E src dst : Endpoint} {m : Message}
  {ms : List Message} {net data tail : Bytes} {k : Nat}

/-- What goes into the frame of message number `k`. -/
def payload (p : Proto) (key : Option Bytes) (k : Nat) (m : Message) : Bytes :=
  match key with
  | none => p.write m
  | some key => p.box.sealBox (p.write m) (Encrypt.getNonce (UInt64.ofNat (k + 1))) key

def payloads (p : Proto) (key : Option Bytes) : Nat → List Message → List Bytes
  | _, [] => []
  | k, m :: ms => payload p key k m :: payloads p key (k + 1) ms

theorem payloads_concat : payloads p key k (ms ++ [m]) =
    payloads p key k ms ++ [payload p key (k + ms.length) m] := by
  induction ms generalizing k with
  | nil => rfl
  | cons m' ms ih =>
    have hk : k + (m' :: ms).length = k + 1 + ms.length := by
      rw [List.length_cons]
      omega
    rw [List.cons_append, payloads, payloads, ih, hk, List.cons_append]

theorem payload_short (hp : p.Lawful) : (payload p key k m).length ≤ 0x3FFFFFFF := by
  cases key with
  | none => exact hp.short m
  | some key => exact (hp.sealed m _ key).2

/-- The counters of the cipher follow the messages sent and handled. -/
def Counted (key : Option Bytes) (E : Endpoint) : Prop :=
  E.stream.encrypt = key.map fun key =>
    ⟨key, UInt64.ofNat E.sent.length, UInt64.ofNat E.handled.length⟩

/-- The decoder stands before a header. -/
def Ready (c : BytesCodec) : Prop := c.state = .head ∧ c.maxPacketLength = usizeMax

/-- Messages from number `k` on are still to come over the stream, and raw bytes behind them. -/
def Coming (p : Proto) (key : Option Bytes) (c : BytesCodec) (stream : Bytes) (k : Nat)
    (ms : List Message) (tail : Bytes) : Prop :=
  BytesCodec.streamDecoder.Pending Ready c stream (payloads p key k ms) tail

/-- The bytes an end has sent raw. -/
def Endpoint.rawSent (E : Endpoint) : Bytes :=
  match E.phase with
  | .forward => E.input
  | _ => []

/-- What is between two ends, by what the receiving end is at. -/
def Link (p : Proto) (key : Option Bytes) (src dst : Endpoint) (net : Bytes) : Prop :=
  match dst.phase with
  | .loop => dst.stream.codec.raw = false ∧ dst.output = [] ∧
      ∃ ms, src.sent = dst.handled ++ ms ∧
        Coming p key dst.stream.codec (dst.stream.buf ++ net) dst.handled.length ms src.rawSent
  | .forward => dst.stream.codec.raw = true ∧ dst.stream.encrypt = none ∧
      src.sent = dst.handled ∧ dst.output ++ (dst.stream.buf ++ net) = src.rawSent
  | .closed => dst.output = [] ∧ dst.handled <+: src.sent

theorem link_loop (h : dst.phase = .loop) : Link p key src dst net ↔
    dst.stream.codec.raw = false ∧ dst.output = [] ∧ ∃ ms, src.sent = dst.handled ++ ms ∧
      Coming p key dst.stream.codec (dst.stream.buf ++ net) dst.handled.length ms src.rawSent := by
  simp only [Link, h]

theorem link_forward (h : dst.phase = .forward) : Link p key src dst net ↔
    dst.stream.codec.raw = true ∧ dst.stream.encrypt = none ∧ src.sent = dst.handled ∧
      dst.output ++ (dst.stream.buf ++ net) = src.rawSent := by
  simp only [Link, h]

theorem link_closed (h : dst.phase = .closed) : Link p key src dst net ↔
    dst.output = [] ∧ dst.handled <+: src.sent := by
  simp only [Link, h]

section Codec

theorem decode_sendBytes {s : FramedStream} (hraw : s.codec.raw = false)
    (hdata : data.length ≤ 0x3FFFFFFF) (c : BytesCodec) (hc : c.raw = false) (hready : Ready c) :
    ∃ c', Ready c' ∧ c.decode (s.sendBytes data) = .ok (some data, c', []) := by
  obtain ⟨hdr, w, hw, hlen, hv, henc⟩ := BytesCodec.encode_eq hraw hdata []
  have hmax : data.length ≤ c.maxPacketLength := by
    rw [hready.2]
    exact hdata.trans (by decide)
  have hsend : s.sendBytes data = hdr ++ data ++ [] := by
    rw [FramedStream.sendBytes, henc, List.nil_append, List.append_nil]
  rw [hsend]
  exact ⟨c, hready, BytesCodec.decode_frame hc hready.1 [] hw hlen hv hmax⟩

theorem sendBytes_raw {s : FramedStream} (hraw : s.codec.raw = true) (data : Bytes) :
    s.sendBytes data = data := by
  simp only [FramedStream.sendBytes, BytesCodec.encode, hraw, if_true, List.nil_append]

theorem decode_nil {c : BytesCodec} (hraw : c.raw = false) (hready : Ready c) :
    c.decode [] = .ok (none, c, []) := by
  simp only [BytesCodec.decode, hraw, Bool.false_eq_true, if_false, hready.1,
    BytesCodec.decodeHead]

end Codec

section Send

/-- A message goes out under the next number. -/
theorem send_spec (hcount : Counted key E) :
    (E.send p m).2 = E.stream.sendBytes (payload p key E.sent.length m) ∧
    Counted key (E.send p m).1 ∧ ∃ encrypt, (E.send p m).1 =
      { E with stream := { E.stream with encrypt := encrypt }, sent := E.sent ++ [m] } := by
  cases key with
  | none =>
    have hnone : E.stream.encrypt = none := hcount
    simp only [Endpoint.send, FramedStream.sendRaw, hnone]
    refine ⟨rfl, hnone, none, ?_⟩
    rw [← hnone]
  | some key =>
    have hsome : E.stream.encrypt =
      some ⟨key, UInt64.ofNat E.sent.length, UInt64.ofNat E.handled.length⟩ := hcount
    simp only [Endpoint.send, FramedStream.sendRaw, hsome, Encrypt.enc, Encrypt.ofNat_succ]
    refine ⟨rfl, ?_, _, rfl⟩
    simp only [Counted, List.length_append, List.length_singleton, Option.map_some]

/-- A message sent to an end that reads messages comes behind the others. -/
theorem Link.send (hp : p.Lawful) (h : Link p key src dst net) (hcount : Counted key src)
    (hloop : src.phase = .loop) (hraw : src.stream.codec.raw = false)
    (hdst : dst.phase ≠ .forward) (m : Message) :
    Link p key (src.send p m).1 dst (net ++ (src.send p m).2) := by
  obtain ⟨hbytes, -, encrypt, hsend⟩ := send_spec (p := p) (m := m) hcount
  have hbefore : src.rawSent = [] := by rw [Endpoint.rawSent, hloop]
  have hafter : (src.send p m).1.rawSent = [] := by rw [hsend, Endpoint.rawSent, hloop]
  have hsent : (src.send p m).1.sent = src.sent ++ [m] := by rw [hsend]
  cases hphase : dst.phase with
  | loop =>
    rw [link_loop hphase] at h ⊢
    obtain ⟨hdraw, hout, ms, hms, hcoming⟩ := h
    refine ⟨hdraw, hout, ms ++ [m], by rw [hsent, hms, List.append_assoc], ?_⟩
    have hnumber : dst.handled.length + ms.length = src.sent.length := by
      rw [hms, List.length_append]
    rw [hbefore] at hcoming
    rw [hafter, hbytes, ← List.append_assoc, Coming, payloads_concat, hnumber]
    exact hcoming.push hdraw fun c hc hready =>
      decode_sendBytes hraw (payload_short hp) c hc hready
  | forward => exact absurd hphase hdst
  | closed =>
    rw [link_closed hphase] at h ⊢
    exact ⟨h.1, hsent ▸ h.2.trans (List.prefix_append _ _)⟩

/-- Bytes that an end sends raw come behind everything else. -/
theorem Link.raw (h : Link p key src dst net) {src' : Endpoint} (hsent : src'.sent = src.sent)
    (hraw : src'.rawSent = src.rawSent ++ data) : Link p key src' dst (net ++ data) := by
  cases hphase : dst.phase with
  | loop =>
    rw [link_loop hphase] at h ⊢
    obtain ⟨hdraw, hout, ms, hms, hcoming⟩ := h
    refine ⟨hdraw, hout, ms, by rw [hsent, hms], ?_⟩
    rw [hraw, ← List.append_assoc]
    exact hcoming.more hdraw data
  | forward =>
    rw [link_forward hphase] at h ⊢
    refine ⟨h.1, h.2.1, by rw [hsent, h.2.2.1], ?_⟩
    rw [hraw, ← h.2.2.2]
    simp only [List.append_assoc]
  | closed =>
    rw [link_closed hphase] at h ⊢
    rw [hsent]
    exact h

/-- What an end does apart from sending leaves the bytes on their way as they are. -/
theorem Link.source (h : Link p key src dst net) {src' : Endpoint} (hsent : src'.sent = src.sent)
    (hraw : src'.rawSent = src.rawSent) : Link p key src' dst net := by
  have hnone : src'.rawSent = src.rawSent ++ [] := by rw [hraw, List.append_nil]
  have hmore := h.raw hsent hnone
  rwa [List.append_nil] at hmore

end Send

section Receive

theorem valid_of_decode {c c' : BytesCodec} {buf rest : Bytes} {item : Option Bytes}
    (hraw : c.raw = false) (h : c.decode buf = .ok (item, c', rest)) : c'.raw = false :=
  BytesCodec.streamDecoder.valid_next hraw h

/-- An end in its loop waits for more bytes or gets the next message that was sent to it, unless
it has them all and raw bytes come behind them. -/
theorem next_cases (hp : p.Lawful) (hcount : Counted key dst) (hphase : dst.phase = .loop)
    (h : Link p key src dst net) (hempty : src.sent = dst.handled → src.rawSent = []) :
    (∃ stream, dst.stream.next p.box = (.pending, stream) ∧
      Counted key { dst with stream := stream } ∧
      Link p key src { dst with stream := stream } net) ∨
    ∃ m ms stream, src.sent = dst.handled ++ m :: ms ∧
      dst.stream.next p.box = (.item (p.write m), stream) ∧
      Counted key { dst with stream := stream, handled := dst.handled ++ [m] } ∧
      Link p key src { dst with stream := stream, handled := dst.handled ++ [m] } net := by
  obtain ⟨hraw, hout, ms, hms, hcoming⟩ := (link_loop hphase).mp h
  cases ms with
  | nil =>
    rw [List.append_nil] at hms
    rw [hempty hms] at hcoming
    obtain ⟨hready, hnothing⟩ := hcoming
    have hbuf : dst.stream.buf = [] := (List.append_eq_nil_iff.mp hnothing).1
    refine .inl ⟨dst.stream, ?_, hcount, h⟩
    have hdec := decode_nil hraw hready
    rw [← hbuf] at hdec
    simp only [FramedStream.next, hdec]
  | cons m ms =>
    cases hdec : dst.stream.codec.decode dst.stream.buf with
    | error e => exact absurd hdec (hcoming.decode_ne_error hraw e)
    | ok r =>
      obtain ⟨item, c', rest⟩ := r
      have hraw' := valid_of_decode hraw hdec
      cases item with
      | none =>
        refine .inl ⟨{ dst.stream with codec := c', buf := rest }, ?_, hcount, ?_⟩
        · simp only [FramedStream.next, hdec]
        · exact (link_loop (by exact hphase)).mpr
            ⟨hraw', hout, m :: ms, hms, hcoming.decode_none hraw hdec⟩
      | some bytes =>
        obtain ⟨rfl, hrest⟩ := hcoming.decode_some hraw hdec
        have hsent : src.sent = dst.handled ++ [m] ++ ms := by
          rw [hms, List.append_assoc, List.singleton_append]
        have hnumber : (dst.handled ++ [m]).length = dst.handled.length + 1 := by
          rw [List.length_append, List.length_singleton]
        have hlink (encrypt : Option Encrypt) : Link p key src
            { dst with stream := ⟨c', encrypt, rest⟩, handled := dst.handled ++ [m] } net := by
          refine (link_loop (by exact hphase)).mpr ⟨hraw', hout, ms, hsent, ?_⟩
          rw [hnumber]
          exact hrest
        refine .inr ⟨m, ms, ?_⟩
        cases key with
        | none =>
          have hnone : dst.stream.encrypt = none := hcount
          refine ⟨⟨c', none, rest⟩, hms, ?_, rfl, hlink none⟩
          simp only [FramedStream.next, hdec, hnone]
          rfl
        | some key =>
          have hsome : dst.stream.encrypt =
            some ⟨key, UInt64.ofNat dst.sent.length, UInt64.ofNat dst.handled.length⟩ := hcount
          refine ⟨⟨c', some ⟨key, UInt64.ofNat dst.sent.length,
            UInt64.ofNat (dst.handled.length + 1)⟩, rest⟩, hms, ?_, ?_, hlink _⟩
          · have hlong : ¬ (payload p (some key) dst.handled.length m).length ≤ 1 := by
              have := (hp.sealed m (UInt64.ofNat (dst.handled.length + 1)) key).1
              simp only [payload]
              omega
            simp only [FramedStream.next, hdec, hsome, Encrypt.dec, hlong, if_false,
              Encrypt.ofNat_succ]
            simp only [payload, hp.opens (p.write m) _ key]
          · simp only [Counted, hnumber, Option.map_some]

/-- An end that has handled every message sent to it may turn to the bytes behind them. -/
theorem Link.setRaw (h : Link p key src dst net) (hphase : dst.phase = .loop)
    (hall : src.sent = dst.handled) : Link p key src dst.setRaw net := by
  obtain ⟨-, hout, ms, hms, hcoming⟩ := (link_loop hphase).mp h
  have hnil : ms = [] := by
    rw [hall] at hms
    exact List.self_eq_append_right.mp hms
  subst hnil
  refine (link_forward rfl).mpr ⟨rfl, rfl, hall, ?_⟩
  exact (congrArg (· ++ _) hout).trans hcoming.2

theorem Link.close (h : Link p key src dst net) (hphase : dst.phase = .loop) :
    Link p key src { dst with phase := .closed } net := by
  obtain ⟨-, hout, ms, hms, -⟩ := (link_loop hphase).mp h
  exact (link_closed rfl).mpr ⟨hout, ms, hms.symm⟩

/-- Forwarding takes the bytes that have arrived, as they are. -/
theorem Link.forward (h : Link p key src dst net) (hphase : dst.phase = .forward) :
    (dst.forward p).phase = .forward ∧ Link p key src (dst.forward p) net := by
  obtain ⟨hraw, hplain, hall, hbytes⟩ := (link_forward hphase).mp h
  cases hbuf : dst.stream.buf with
  | nil =>
    have hnext : dst.stream.next p.box = (.pending, dst.stream) := by
      simp only [FramedStream.next, BytesCodec.decode, hraw, hbuf, if_true, List.isEmpty_nil]
      rw [← hbuf]
    simp only [Endpoint.forward, hnext]
    exact ⟨hphase, h⟩
  | cons b bs =>
    have hnext : dst.stream.next p.box = (.item (b :: bs), { dst.stream with buf := [] }) := by
      simp only [FramedStream.next, BytesCodec.decode, hraw, hbuf, if_true, List.isEmpty_cons,
        Bool.false_eq_true, if_false, hplain]
    simp only [Endpoint.forward, hnext]
    refine ⟨hphase, (link_forward (by exact hphase)).mpr ⟨hraw, hplain, hall, ?_⟩⟩
    rw [← hbytes, hbuf]
    simp only [List.append_assoc, List.nil_append]

/-- Bytes may arrive in any portions. -/
theorem Link.arrive (h : Link p key src dst net) (n : Nat) :
    Link p key src (dst.arrive (net.take n)) (net.drop n) := by
  have hbytes : dst.stream.buf ++ net.take n ++ net.drop n = dst.stream.buf ++ net := by
    rw [List.append_assoc, List.take_append_drop]
  cases hphase : dst.phase with
  | loop =>
    rw [link_loop hphase] at h
    refine (link_loop (by exact hphase)).mpr ?_
    simpa only [Endpoint.arrive, hbytes] using h
  | forward =>
    rw [link_forward hphase] at h
    refine (link_forward (by exact hphase)).mpr ?_
    simpa only [Endpoint.arrive, hbytes] using h
  | closed =>
    rw [link_closed hphase] at h
    exact (link_closed (by exact hphase)).mpr h

/-- What an end sends does not touch what it receives. -/
theorem Link.dest (h : Link p key src dst net) {dst' : Endpoint} (hphase : dst'.phase = dst.phase)
    (hhandled : dst'.handled = dst.handled) (hout : dst'.output = dst.output)
    (hcodec : dst'.stream.codec = dst.stream.codec) (hbuf : dst'.stream.buf = dst.stream.buf)
    (hencrypt : dst.phase = .forward → dst'.stream.encrypt = dst.stream.encrypt) :
    Link p key src dst' net := by
  cases hd : dst.phase with
  | loop =>
    rw [link_loop hd] at h
    refine (link_loop (hphase.trans hd)).mpr ?_
    rwa [hhandled, hout, hcodec, hbuf]
  | forward =>
    rw [link_forward hd] at h
    refine (link_forward (hphase.trans hd)).mpr ?_
    rwa [hhandled, hout, hcodec, hbuf, hencrypt hd]
  | closed =>
    rw [link_closed hd] at h
    refine (link_closed (hphase.trans hd)).mpr ?_
    rwa [hhandled, hout]

/-- What came out is the first of what went in, messages and bytes. -/
theorem Link.clean (h : Link p key src dst net) :
    dst.output <+: src.input ∧ dst.handled <+: src.sent := by
  cases hphase : dst.phase with
  | loop =>
    obtain ⟨-, hout, ms, hms, -⟩ := (link_loop hphase).mp h
    exact ⟨hout ▸ List.nil_prefix, ms, hms.symm⟩
  | forward =>
    obtain ⟨-, -, hall, hbytes⟩ := (link_forward hphase).mp h
    refine ⟨?_, hall ▸ List.prefix_rfl⟩
    have hraw : src.rawSent <+: src.input := by
      unfold Endpoint.rawSent
      split
      · exact List.prefix_rfl
      · exact List.nil_prefix
    exact List.IsPrefix.trans ⟨_, hbytes⟩ hraw
  | closed =>
    obtain ⟨hout, hhandled⟩ := (link_closed hphase).mp h
    exact ⟨hout ▸ List.nil_prefix, hhandled⟩

end Receive

section Wired

variable {A B : Endpoint} {toA toB : Bytes}

/-- Both directions of a session. -/
structure Wired (p : Proto) (key : Option Bytes) (A B : Endpoint) (toA toB : Bytes) : Prop where
  countA : A.phase = .loop → Counted key A
  countB : B.phase = .loop → Counted key B
  linkA : Link p key B A toA
  linkB : Link p key A B toB

theorem Wired.symm (h : Wired p key A B toA toB) : Wired p key B A toB toA :=
  ⟨h.countB, h.countA, h.linkB, h.linkA⟩

theorem Wired.send (hp : p.Lawful) (h : Wired p key A B toA toB) (hA : A.phase = .loop)
    (hB : B.phase ≠ .forward) (m : Message) :
    Wired p key (A.send p m).1 B toA (toB ++ (A.send p m).2) := by
  obtain ⟨-, hcount, encrypt, hsend⟩ := send_spec (p := p) (m := m) (h.countA hA)
  have hraw : A.stream.codec.raw = false := ((link_loop hA).mp h.linkA).1
  refine ⟨fun _ => hcount, h.countB, ?_, h.linkB.send hp (h.countA hA) hA hraw hB m⟩
  rw [hsend]
  exact h.linkA.dest rfl rfl rfl rfl rfl fun hforward => absurd (hA.symm.trans hforward) (by decide)

theorem Wired.next (hp : p.Lawful) (h : Wired p key A B toA toB) (hA : A.phase = .loop)
    (hempty : B.sent = A.handled → B.rawSent = []) :
    (∃ stream, A.stream.next p.box = (.pending, stream) ∧
      Wired p key { A with stream := stream } B toA toB) ∨
    ∃ m ms stream, B.sent = A.handled ++ m :: ms ∧
      A.stream.next p.box = (.item (p.write m), stream) ∧
      Wired p key { A with stream := stream, handled := A.handled ++ [m] } B toA toB := by
  rcases next_cases hp (h.countA hA) hA h.linkA hempty with
    ⟨stream, hnext, hcount, hlink⟩ | ⟨m, ms, stream, hms, hnext, hcount, hlink⟩
  · exact .inl ⟨stream, hnext, fun _ => hcount, h.countB, hlink, h.linkB.source rfl rfl⟩
  · exact .inr ⟨m, ms, stream, hms, hnext, fun _ => hcount, h.countB, hlink,
      h.linkB.source rfl rfl⟩

/-- Making a side raw sends on what was read before. -/
theorem Wired.setRaw (h : Wired p key A B toA toB) (hA : A.phase = .loop)
    (hall : B.sent = A.handled) : Wired p key A.setRaw B toA (toB ++ A.input) := by
  refine ⟨fun hloop => ?_, h.countB, h.linkA.setRaw hA hall, h.linkB.raw rfl ?_⟩
  · cases hloop
  · have hbefore : A.rawSent = [] := by rw [Endpoint.rawSent, hA]
    rw [hbefore]
    rfl

theorem Wired.close (h : Wired p key A B toA toB) (hA : A.phase = .loop) :
    Wired p key { A with phase := .closed } B toA toB := by
  refine ⟨fun hloop => ?_, h.countB, h.linkA.close hA, h.linkB.source rfl ?_⟩
  · cases hloop
  · simp only [Endpoint.rawSent, hA]

theorem forward_keeps (p : Proto) (A : Endpoint) :
    (A.forward p).phase = A.phase ∧ (A.forward p).sent = A.sent ∧
      (A.forward p).handled = A.handled ∧ (A.forward p).input = A.input := by
  unfold Endpoint.forward
  split <;> exact ⟨rfl, rfl, rfl, rfl⟩

theorem Wired.forward (h : Wired p key A B toA toB) (hA : A.phase = .forward) :
    Wired p key (A.forward p) B toA toB := by
  obtain ⟨hphase, hsent, -, hinput⟩ := forward_keeps p A
  refine ⟨fun hloop => ?_, h.countB, (h.linkA.forward hA).2, h.linkB.source hsent ?_⟩
  · cases (hphase.trans hA).symm.trans hloop
  · simp only [Endpoint.rawSent, hphase, hinput]

theorem Wired.read (h : Wired p key A B toA toB) (hA : A.phase = .forward) (bytes : Bytes) :
    Wired p key (A.read bytes).1 B toA (toB ++ (A.read bytes).2) := by
  have hraw : A.stream.codec.raw = true := ((link_forward hA).mp h.linkA).1
  have hsend : (A.read bytes).2 = bytes := sendBytes_raw hraw bytes
  refine ⟨fun hloop => ?_, h.countB,
    h.linkA.dest rfl rfl rfl rfl rfl fun _ => rfl, h.linkB.raw rfl ?_⟩
  · cases hA.symm.trans hloop
  · rw [hsend]
    simp only [Endpoint.rawSent, Endpoint.read, hA]

/-- What an end in its loop has read from its socket is not sent yet. -/
theorem Wired.buffer (h : Wired p key A B toA toB) (hA : A.phase = .loop) (input : Bytes) :
    Wired p key { A with input := input } B toA toB := by
  refine ⟨h.countA, h.countB, h.linkA.dest rfl rfl rfl rfl rfl fun _ => rfl,
    h.linkB.source rfl ?_⟩
  simp only [Endpoint.rawSent, hA]

theorem Wired.arrive (h : Wired p key A B toA toB) (n : Nat) :
    Wired p key (A.arrive (toA.take n)) B (toA.drop n) toB :=
  ⟨h.countA, h.countB, h.linkA.arrive n, h.linkB.source rfl rfl⟩

end Wired

end MDesk.Net.PortForward
