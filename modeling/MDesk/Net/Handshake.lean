import Mathlib.Data.List.Nodup
import MDesk.Core.Run
import MDesk.Core.Symbolic

/-!
# The secure handshake

The host signs a fresh box key with its own key; the controller takes that key from a
signature of the rendezvous server and answers with a fresh symmetric key in a box. Every
message on the way passes through an adversary.
-/

namespace MDesk.Net.Handshake

open MDesk.Core MDesk.Core.Symbolic

/-- The owners of secrets. A host is named by its number for its signing key, a run by its own
for the keys it makes. -/
inductive Name
  | rendezvous
  | honest (n : Nat)
  | adversary (n : Nat)
  deriving DecidableEq, Repr

abbrev Value := Term Name

/-- The kinds of message the handshake looks for, among all others. -/
inductive Union
  | signedId (id : Value)
  | publicKey (asymmetricValue symmetricValue : Value)
  | other
  deriving DecidableEq, Repr

/-- A message; `Message::new()` has nothing in it. -/
abbrev Message := Option Union

/-- What waiting for a message ends with: none in time, bytes that are none, or a message. -/
inductive Received
  | lost
  | garbage
  | message (m : Message)
  deriving DecidableEq, Repr

def Union.values : Union → List Value
  | .signedId id => [id]
  | .publicKey asymmetricValue symmetricValue => [asymmetricValue, symmetricValue]
  | .other => []

def Message.values (m : Message) : List Value := (m.map Union.values).getD []

def Received.values : Received → List Value
  | .message m => Message.values m
  | _ => []

/-- `get_pk`: a public key has 32 bytes. -/
def getPk (pk : Value) : Option Value := if pk.size = 32 then some pk else none

/-- `decode_id_pk` -/
def decodeIdPk (signed key : Value) : Option (String × Value) :=
  match signed.verify key with
  | some (.pair (.text id) pk) => (getPk pk).map fun pk => (id, pk)
  | _ => none

section Controller

/-- The first half of `secure_connection_with_timeout`: the host's key, where the rendezvous
server vouches for it. -/
def signPkOf (peerId : String) (signedIdPk : Value) (rsPk : Option Value) : Option Value :=
  if signedIdPk.size = 0 then none
  else
    match rsPk.bind (decodeIdPk signedIdPk) with
    | some (id, pk) => if id = peerId then some pk else none
    | none => none

/-- `create_symmetric_key_msg`, with the keys of a run: the asymmetric value, the symmetric
value and the key. -/
def createSymmetricKeyMsg (theirPk : Value) (run : Name) : Value × Value × Value :=
  (.boxPk run, .boxed (.key run) theirPk run, .key run)

/-- What `secure_connection_with_timeout` sends, the key it sets, and what it returns. -/
structure Outcome where
  sent : Option Message
  setKey : Option Value
  result : Option (Option Value)

def Outcome.values (out : Outcome) : List Value := (out.sent.map Message.values).getD []

/-- Without a key for the host the connection stays plain. -/
def unvouched : Outcome := ⟨some none, none, some none⟩

/-- The second half of `secure_connection_with_timeout`. -/
def secureConnection (peerId : String) (signPk : Value) (run : Name) : Received → Outcome
  | .lost => ⟨none, none, none⟩
  | .garbage => ⟨some none, none, some (some signPk)⟩
  | .message (some (.signedId si)) =>
    match decodeIdPk si signPk with
    | some (id, theirPk) =>
      if id = peerId then
        let (asymmetricValue, symmetricValue, key) := createSymmetricKeyMsg theirPk run
        ⟨some (some (.publicKey asymmetricValue symmetricValue)), some key, some (some signPk)⟩
      else ⟨some none, none, some (some signPk)⟩
    -- a key mismatch falls back to a plain connection
    | none => ⟨some (some (.publicKey (.text "") (.text ""))), none, some (some signPk)⟩
  | .message _ => ⟨some none, none, some (some signPk)⟩

end Controller

section Host

/-- A run of `create_tcp_connection` that asks for a secure connection. -/
structure HostRun where
  run : Nat
  host : Nat
  id : String
  deriving DecidableEq, Repr

/-- The `SignedId` a host sends. -/
def HostRun.signedId (h : HostRun) : Value :=
  .signed (.pair (.text h.id) (.boxPk (.honest h.run))) (.honest h.host)

/-- `Encrypt::decode` -/
def decode (symmetricData theirPk : Value) (ourSk : Name) : Option Value :=
  if theirPk.size = 32 then
    match symmetricData.boxOpen theirPk ourSk with
    | some key => if key.size = 32 then some key else none
    | none => none
  else none

/-- How the host goes on: not at all, plain, plain with its own key to be registered again, or
with a key set. -/
inductive Reply
  | bail
  | plain
  | forceUpdatePk
  | setKey (key : Value)

/-- What `create_tcp_connection` makes of the controller's message. -/
def HostRun.reply (h : HostRun) : Received → Reply
  | .lost | .garbage => .bail
  | .message (some (.publicKey asymmetricValue symmetricValue)) =>
    if asymmetricValue.size = 32 then
      match decode symmetricValue asymmetricValue (.honest h.run) with
      | some key => .setKey key
      | none => .bail
    else if asymmetricValue.size = 0 then .forceUpdatePk
    else .bail
  | .message _ => .plain

end Host

/-- A controller that waits for the `SignedId` of the host. -/
structure Dial where
  run : Nat
  peerId : String
  signPk : Value
  deriving DecidableEq, Repr

/-- A run of `secure_connection_with_timeout` that has set a key. -/
structure ControllerRun where
  run : Nat
  peerId : String
  signPk : Value
  sealedKey : Value
  key : Value
  deriving DecidableEq, Repr

/-- All handshakes so far, of all hosts and controllers. -/
structure World where
  next : Nat
  sent : List Value
  hosts : List HostRun
  waiting : List HostRun
  installed : List (HostRun × Value)
  dialing : List Dial
  controllers : List ControllerRun

def World.init : World := ⟨0, [], [], [], [], [], []⟩

inductive Event
  | accept (host : Nat) (id : String)
  | toHost (h : HostRun) (res : Received)
  | dial (peerId : String) (signedIdPk : Value) (rsPk : Option Value)
  | toController (d : Dial) (res : Received)
  deriving DecidableEq

def World.accept (W : World) (host : Nat) (id : String) : World :=
  let h : HostRun := ⟨W.next, host, id⟩
  { W with
    next := W.next + 1
    sent := h.signedId :: W.sent
    hosts := h :: W.hosts
    waiting := h :: W.waiting }

def World.toHost (W : World) (h : HostRun) (res : Received) : World :=
  match h.reply res with
  | .setKey key =>
    { W with waiting := W.waiting.erase h, installed := (h, key) :: W.installed }
  | _ => { W with waiting := W.waiting.erase h }

def World.dial (W : World) (peerId : String) (signedIdPk : Value) (rsPk : Option Value) : World :=
  match signPkOf peerId signedIdPk rsPk with
  | some signPk =>
    { W with next := W.next + 1, dialing := ⟨W.next, peerId, signPk⟩ :: W.dialing }
  | none => { W with sent := unvouched.values ++ W.sent }

def World.toController (W : World) (d : Dial) (res : Received) : World :=
  let out := secureConnection d.peerId d.signPk (.honest d.run) res
  let W := { W with sent := out.values ++ W.sent, dialing := W.dialing.erase d }
  match out.setKey, out.sent with
  | some key, some (some (.publicKey _ sealedKey)) =>
    { W with controllers := ⟨d.run, d.peerId, d.signPk, sealedKey, key⟩ :: W.controllers }
  | _, _ => W

def step (W : World) : Event → World
  | .accept host id => W.accept host id
  | .toHost h res => W.toHost h res
  | .dial peerId signedIdPk rsPk => W.dial peerId signedIdPk rsPk
  | .toController d res => W.toController d res

/-- The names whose secrets the adversary has. -/
def Bad : Name → Prop
  | .adversary _ => True
  | _ => False

section Adversary

variable (R : String → Name → Prop)

/-- The signatures of the rendezvous server: it binds ids to signing keys. -/
def Bindings : Set Value :=
  {t | ∃ id n, R id n ∧ t = .signed (.pair (.text id) (.signPk n)) .rendezvous}

/-- The adversary has seen the server's signatures and every message so far. -/
def World.Knows (W : World) (t : Value) : Prop := Derives Bad (Bindings R ∪ {t | t ∈ W.sent}) t

/-- The adversary delivers what it can derive, to the runs that wait for it. -/
def World.Enabled (W : World) : Event → Prop
  | .accept _ _ => True
  | .toHost h res => h ∈ W.waiting ∧ ∀ t ∈ res.values, W.Knows R t
  | .dial _ signedIdPk rsPk => W.Knows R signedIdPk ∧ ∀ pk ∈ rsPk, pk = .signPk .rendezvous
  | .toController d res => d ∈ W.dialing ∧ ∀ t ∈ res.values, W.Knows R t

end Adversary

section Cases

theorem getPk_eq_some {pk pk' : Value} (h : getPk pk = some pk') : pk' = pk := by
  unfold getPk at h
  split_ifs at h
  exact (Option.some.inj h).symm

/-- An id with its key comes from a signature under the key it was checked with. -/
theorem decodeIdPk_eq_some {signed key pk : Value} {id : String}
    (h : decodeIdPk signed key = some (id, pk)) :
    ∃ n, signed = .signed (.pair (.text id) pk) n ∧ key = .signPk n := by
  unfold decodeIdPk at h
  split at h
  · next hv =>
    obtain ⟨pk', hpk, hid⟩ := Option.map_eq_some_iff.mp h
    obtain ⟨rfl, rfl⟩ := Prod.mk.inj hid
    obtain rfl := getPk_eq_some hpk
    exact Term.verify_eq_some hv
  · cases h

theorem signPkOf_eq_some {peerId : String} {signedIdPk pk : Value} {rsPk : Option Value}
    (h : signPkOf peerId signedIdPk rsPk = some pk) :
    ∃ rs ∈ rsPk, decodeIdPk signedIdPk rs = some (peerId, pk) := by
  unfold signPkOf at h
  split_ifs at h
  split at h
  · next hrs =>
    split_ifs at h with hid
    obtain rfl := Option.some.inj h
    obtain rfl := hid
    exact Option.bind_eq_some_iff.mp hrs
  · cases h

/-- A controller sets the key of its run and sends it to the box key the host has signed, or it
sets none and gives nothing away. -/
theorem secureConnection_cases (peerId : String) (signPk : Value) (run : Name) (res : Received) :
    (∃ si theirPk, res = .message (some (.signedId si)) ∧
      decodeIdPk si signPk = some (peerId, theirPk) ∧
      secureConnection peerId signPk run res =
        ⟨some (some (.publicKey (.boxPk run) (.boxed (.key run) theirPk run))), some (.key run),
          some (some signPk)⟩) ∨
    (secureConnection peerId signPk run res).setKey = none ∧
      ∀ t ∈ (secureConnection peerId signPk run res).values, t = .text "" := by
  match res with
  | .lost | .garbage => exact .inr ⟨rfl, by simp [secureConnection, Outcome.values, Message.values]⟩
  | .message none => exact .inr ⟨rfl, by simp [secureConnection, Outcome.values, Message.values]⟩
  | .message (some (.publicKey _ _)) | .message (some .other) =>
    exact .inr ⟨rfl, by simp [secureConnection, Outcome.values, Message.values]⟩
  | .message (some (.signedId si)) =>
    cases hdec : decodeIdPk si signPk with
    | none =>
      refine .inr ?_
      simp [secureConnection, hdec, Outcome.values, Message.values, Union.values]
    | some found =>
      obtain ⟨id, theirPk⟩ := found
      by_cases hid : id = peerId
      · subst hid
        exact .inl ⟨si, theirPk, rfl, hdec, by simp [secureConnection, hdec, createSymmetricKeyMsg]⟩
      · refine .inr ?_
        simp [secureConnection, hdec, hid, Outcome.values, Message.values]

theorem World.toController_cases (W : World) (d : Dial) (res : Received) :
    (∃ si theirPk, res = .message (some (.signedId si)) ∧
      decodeIdPk si d.signPk = some (d.peerId, theirPk) ∧
      W.toController d res =
        { W with
          sent := .boxPk (.honest d.run) ::
            .boxed (.key (.honest d.run)) theirPk (.honest d.run) :: W.sent
          dialing := W.dialing.erase d
          controllers := ⟨d.run, d.peerId, d.signPk,
            .boxed (.key (.honest d.run)) theirPk (.honest d.run), .key (.honest d.run)⟩ ::
              W.controllers }) ∨
    ∃ vs : List Value, (∀ t ∈ vs, t = .text "") ∧
      W.toController d res = { W with sent := vs ++ W.sent, dialing := W.dialing.erase d } := by
  rcases secureConnection_cases d.peerId d.signPk (.honest d.run) res with
    ⟨si, theirPk, hres, hdec, hout⟩ | ⟨hkey, hvalues⟩
  · refine .inl ⟨si, theirPk, hres, hdec, ?_⟩
    simp [World.toController, hout, Outcome.values, Message.values, Union.values]
  · exact .inr ⟨_, hvalues, by simp [World.toController, hkey]⟩

theorem HostRun.reply_eq_setKey {h : HostRun} {res : Received} {key : Value}
    (hreply : h.reply res = .setKey key) : ∃ asymmetricValue symmetricValue,
      res = .message (some (.publicKey asymmetricValue symmetricValue)) ∧
      symmetricValue.boxOpen asymmetricValue (.honest h.run) = some key := by
  unfold HostRun.reply at hreply
  split at hreply
  · cases hreply
  · cases hreply
  · next asymmetricValue symmetricValue =>
    refine ⟨asymmetricValue, symmetricValue, rfl, ?_⟩
    split_ifs at hreply
    split at hreply
    · next hdec =>
      obtain rfl := Reply.setKey.inj hreply
      simp only [decode] at hdec
      split_ifs at hdec
      split at hdec
      · next hopen =>
        split_ifs at hdec
        obtain rfl := Option.some.inj hdec
        exact hopen
      · cases hdec
    · cases hreply
  · cases hreply

theorem World.toHost_cases (W : World) (h : HostRun) (res : Received) :
    (∃ asymmetricValue symmetricValue key,
      res = .message (some (.publicKey asymmetricValue symmetricValue)) ∧
      symmetricValue.boxOpen asymmetricValue (.honest h.run) = some key ∧
      W.toHost h res =
        { W with waiting := W.waiting.erase h, installed := (h, key) :: W.installed }) ∨
    W.toHost h res = { W with waiting := W.waiting.erase h } := by
  cases hreply : h.reply res with
  | setKey key =>
    obtain ⟨asymmetricValue, symmetricValue, hres, hopen⟩ := HostRun.reply_eq_setKey hreply
    refine .inl ⟨asymmetricValue, symmetricValue, key, hres, hopen, ?_⟩
    simp only [World.toHost, hreply]
  | bail | plain | forceUpdatePk =>
    refine .inr ?_
    simp only [World.toHost, hreply]

end Cases

end MDesk.Net.Handshake
