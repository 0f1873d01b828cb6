import MDesk.Codec.RoundTrip
import MDesk.Core.Run
import MDesk.Net.Encrypt

/-!
# The port-forward session

Controller and host log in over framed, encrypted messages. When the login is through, each
end makes its side of the connection raw, at a moment of its own, and passes bytes between
the connection and a local socket.
-/

namespace MDesk.Net.PortForward

open MDesk.Core

/-- The errors of a login that `handle_login_error` tells apart. -/
inductive LoginError
  | passwordEmpty
  | passwordWrong
  | require2fa
  | wrong2fa
  | noPasswordAccess
  | desktopNotReady
  | offline
  | failed
  deriving DecidableEq, Repr

/-- The messages of a port-forward login. A `TestDelay` of the host comes back as it is. -/
inductive Message
  | hash
  | permission
  | loginError (e : LoginError)
  | peerInfo
  | testDelay
  | loginRequest
  | auth2fa
  deriving DecidableEq, Repr

/-- The messages the controller's user answers the login with. -/
def Message.isLogin : Message → Bool
  | .loginRequest | .auth2fa => true
  | _ => false

/-- The message format and the cipher of a connection. -/
structure Proto where
  write : Message → Bytes
  parse : Bytes → Option Message
  box : SecretBox

section Stream

/-- `FramedStream`, with the bytes that have arrived. -/
structure FramedStream where
  codec : BytesCodec
  encrypt : Option Encrypt
  buf : Bytes

/-- What `FramedStream::next` comes back with. -/
inductive Polled
  | pending
  | error
  | item (bytes : Bytes)

namespace FramedStream

def start (key : Option Bytes) : FramedStream := ⟨.new, key.map .new, []⟩

/-- `FramedStream::send_bytes`: the bytes that go out. -/
def sendBytes (s : FramedStream) (bytes : Bytes) : Bytes :=
  match s.codec.encode bytes [] with
  | .ok packet => packet
  | .error _ => []

/-- `FramedStream::send_raw` -/
def sendRaw (box : SecretBox) (s : FramedStream) (msg : Bytes) : FramedStream × Bytes :=
  match s.encrypt with
  | some e => ({ s with encrypt := some (e.enc box msg).2 }, s.sendBytes (e.enc box msg).1)
  | none => (s, s.sendBytes msg)

/-- `FramedStream::next`, on the bytes that have arrived. -/
def next (box : SecretBox) (s : FramedStream) : Polled × FramedStream :=
  match s.codec.decode s.buf with
  | .error _ => (.error, s)
  | .ok (none, codec, buf) => (.pending, { s with codec := codec, buf := buf })
  | .ok (some bytes, codec, buf) =>
    match s.encrypt with
    | none => (.item bytes, { s with codec := codec, buf := buf })
    | some e =>
      match e.dec box bytes with
      | (some data, e) => (.item data, ⟨codec, some e, buf⟩)
      | (none, e) => (.error, ⟨codec, some e, buf⟩)

def setRaw (s : FramedStream) : FramedStream := { s with codec := s.codec.setRaw, encrypt := none }

end FramedStream

end Stream

/-- An end handles messages in a loop, then forwards bytes. -/
inductive Phase
  | loop
  | forward
  | closed
  deriving DecidableEq, Repr

/-- One end of the session: its side of the connection, the messages it has sent and handled,
and what it has read from and written to its own socket. -/
structure Endpoint where
  stream : FramedStream
  phase : Phase := .loop
  sent : List Message := []
  handled : List Message := []
  input : Bytes := []
  output : Bytes := []

def Endpoint.send (p : Proto) (E : Endpoint) (m : Message) : Endpoint × Bytes :=
  let (stream, bytes) := E.stream.sendRaw p.box (p.write m)
  ({ E with stream := stream, sent := E.sent ++ [m] }, bytes)

/-- `set_raw`, at the end of the loop. -/
def Endpoint.setRaw (E : Endpoint) : Endpoint :=
  { E with stream := E.stream.setRaw, phase := .forward }

/-- What has come over the connection goes to the local socket. -/
def Endpoint.forward (p : Proto) (E : Endpoint) : Endpoint :=
  match E.stream.next p.box with
  | (.item bytes, stream) => { E with stream := stream, output := E.output ++ bytes }
  | (_, stream) => { E with stream := stream }

/-- What has come from the local socket goes over the connection. -/
def Endpoint.read (E : Endpoint) (bytes : Bytes) : Endpoint × Bytes :=
  ({ E with input := E.input ++ bytes }, E.stream.sendBytes bytes)

section Host

/-- The `Connection` of the host; the bits say whether its options are set. -/
structure Host extends Endpoint where
  authorized : Bool := false
  portForwardSocket : Bool := false
  lastTestDelay : Bool := false

/-- What a login message leads to: no target to connect to, an id that is not the host's, an
authorization, an error, or nothing yet. -/
inductive Verdict
  | noTarget
  | offline
  | authorize
  | refuse (e : LoginError)
  | wait
  deriving DecidableEq, Repr

variable (p : Proto)

namespace Host

def send (H : Host) (m : Message) : Host × Bytes :=
  let (E, bytes) := H.toEndpoint.send p m
  ({ H with toEndpoint := E }, bytes)

/-- `send_logon_response` -/
def sendLogonResponse (H : Host) : Host × Bytes :=
  if H.authorized then (H, []) else { H with authorized := true }.send p .peerInfo

/-- `on_message`, with what it answers and whether the loop goes on. The target is connected
before the login is looked at. -/
def onMessage (H : Host) (m : Message) (v : Verdict) : (Host × Bytes) × Bool :=
  match m with
  | .loginRequest =>
    if H.authorized then ((H, []), true)
    else
      match v with
      | .noTarget => ({ H with portForwardSocket := false }.send p (.loginError .failed), false)
      | .offline => ({ H with portForwardSocket := true }.send p (.loginError .offline), false)
      | .authorize => ({ H with portForwardSocket := true }.sendLogonResponse p, true)
      | .refuse e => ({ H with portForwardSocket := true }.send p (.loginError e), true)
      | .wait => (({ H with portForwardSocket := true }, []), true)
  | .auth2fa =>
    if H.authorized then ((H, []), true)
    else
      match v with
      | .authorize => (H.sendLogonResponse p, true)
      | .refuse e => (H.send p (.loginError e), true)
      | _ => ((H, []), true)
  | .testDelay => (({ H with lastTestDelay := false }, []), true)
  | _ => ((H, []), true)

/-- Behind the loop comes `try_port_forward_loop`, which takes the socket if there is one. -/
def leave (H : Host) : Host :=
  if H.portForwardSocket then { H with portForwardSocket := false, toEndpoint := H.setRaw }
  else { H with phase := .closed }

/-- The stream arm of the loop, from the message on. -/
def handle (H : Host) (m : Message) (v : Verdict) : Host × Bytes :=
  let ((H, out), goesOn) := H.onMessage p m v
  -- a delay test that is still to be answered keeps the loop going
  if goesOn && !(H.portForwardSocket && H.authorized && !H.lastTestDelay) then (H, out)
  else (H.leave, out)

def poll (H : Host) (v : Verdict) : Host × Bytes :=
  match H.phase with
  | .loop =>
    match H.stream.next p.box with
    | (.pending, stream) => ({ H with stream := stream }, [])
    | (.error, stream) =>
      ({ H with stream := stream, portForwardSocket := false, phase := .closed }, [])
    | (.item bytes, stream) =>
      match p.parse bytes with
      | some m => { H with stream := stream, handled := H.handled ++ [m] }.handle p m v
      | none => ({ H with stream := stream }, [])
  | .forward => ({ H with toEndpoint := H.toEndpoint.forward p }, [])
  | .closed => (H, [])

/-- `Authorize` from the connection manager leaves the loop whatever else is under way. -/
def authorize (H : Host) : Host × Bytes :=
  match H.phase with
  | .loop =>
    let (H, out) := H.sendLogonResponse p
    (if H.portForwardSocket then H.leave else H, out)
  | _ => (H, [])

/-- The timer tests the delay once a second, with one test under way at most. -/
def tick (H : Host) : Host × Bytes :=
  if H.phase = .loop ∧ H.lastTestDelay = false ∧ ¬ (H.portForwardSocket ∧ H.authorized) then
    { H with lastTestDelay := true }.send p .testDelay
  else (H, [])

def readTarget (H : Host) (bytes : Bytes) : Host × Bytes :=
  match H.phase with
  | .forward =>
    let (E, out) := H.toEndpoint.read bytes
    ({ H with toEndpoint := E }, out)
  | _ => (H, [])

end Host

end Host

section Controller

/-- `connect_and_login` and `run_forward`, with what the user was asked for. -/
structure Controller extends Endpoint where
  buffer : Bytes := []
  asked2fa : Bool := false

/-- `handle_login_error`: whether the login may be tried again. -/
def LoginError.tryAgain : LoginError → Bool
  | .offline | .failed => false
  | _ => true

variable (p : Proto)

namespace Controller

def send (C : Controller) (m : Message) : Controller × Bytes :=
  let (E, bytes) := C.toEndpoint.send p m
  ({ C with toEndpoint := E }, bytes)

/-- The stream arm of `connect_and_login`, from the message on. The answer to a `Hash` is a
login of its own. -/
def handle (C : Controller) (m : Message) : Controller × Bytes :=
  match m with
  | .loginError e =>
    if e.tryAgain then ({ C with asked2fa := C.asked2fa || e ∈ [.require2fa, .wrong2fa] }, [])
    else ({ C with phase := .closed }, [])
  | .peerInfo =>
    let E := C.toEndpoint.setRaw
    ({ C with toEndpoint := E, buffer := [] },
      if C.buffer.isEmpty then [] else E.stream.sendBytes C.buffer)
  | .testDelay => C.send p .testDelay
  | _ => (C, [])

def poll (C : Controller) : Controller × Bytes :=
  match C.phase with
  | .loop =>
    match C.stream.next p.box with
    | (.pending, stream) => ({ C with stream := stream }, [])
    | (.error, stream) => ({ C with stream := stream, phase := .closed }, [])
    | (.item bytes, stream) =>
      match p.parse bytes with
      | some m => { C with stream := stream, handled := C.handled ++ [m] }.handle p m
      | none => ({ C with stream := stream, phase := .closed }, [])
  | .forward => ({ C with toEndpoint := C.toEndpoint.forward p }, [])
  | .closed => (C, [])

/-- A login message, from `handle_hash` or from the user. -/
def login (C : Controller) (m : Message) : Controller × Bytes :=
  if C.phase = .loop then C.send p m else (C, [])

def readLocal (C : Controller) (bytes : Bytes) : Controller × Bytes :=
  match C.phase with
  | .loop => ({ C with buffer := C.buffer ++ bytes, input := C.input ++ bytes }, [])
  | .forward =>
    let (E, out) := C.toEndpoint.read bytes
    ({ C with toEndpoint := E }, out)
  | .closed => (C, [])

end Controller

end Controller

/-- Both ends, and the bytes on their way. -/
structure World where
  host : Host
  controller : Controller
  toHost : Bytes
  toController : Bytes

inductive Event
  | arriveHost (n : Nat)
  | arriveController (n : Nat)
  | pollHost (v : Verdict)
  | pollController
  | tick
  | authorize
  | readTarget (bytes : Bytes)
  | login (m : Message)
  | readLocal (bytes : Bytes)
  deriving DecidableEq, Repr

def Endpoint.arrive (E : Endpoint) (bytes : Bytes) : Endpoint :=
  { E with stream := { E.stream with buf := E.stream.buf ++ bytes } }

namespace World

variable (p : Proto)

def hostDoes (W : World) (r : Host × Bytes) : World :=
  { W with host := r.1, toController := W.toController ++ r.2 }

def controllerDoes (W : World) (r : Controller × Bytes) : World :=
  { W with controller := r.1, toHost := W.toHost ++ r.2 }

def step (W : World) : Event → World
  | .arriveHost n =>
    { W with
      host := { W.host with toEndpoint := W.host.arrive (W.toHost.take n) }
      toHost := W.toHost.drop n }
  | .arriveController n =>
    { W with
      controller := { W.controller with
        toEndpoint := W.controller.arrive (W.toController.take n) }
      toController := W.toController.drop n }
  | .pollHost v => W.hostDoes (W.host.poll p v)
  | .pollController => W.controllerDoes (W.controller.poll p)
  | .tick => W.hostDoes (W.host.tick p)
  | .authorize => W.hostDoes (W.host.authorize p)
  | .readTarget bytes => W.hostDoes (W.host.readTarget bytes)
  | .login m => W.controllerDoes (W.controller.login p m)
  | .readLocal bytes => W.controllerDoes (W.controller.readLocal bytes)

/-- The host opens with its `Hash` and the permissions it does not give. -/
def start (key : Option Bytes) (denied : Nat) : World :=
  let connected : World := ⟨{ stream := .start key }, { stream := .start key }, [], []⟩
  (.hash :: List.replicate denied .permission).foldl (fun W m => W.hostDoes (W.host.send p m))
    connected

end World

end MDesk.Net.PortForward
