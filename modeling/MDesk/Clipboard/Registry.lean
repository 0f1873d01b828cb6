import MDesk.Clipboard.RandomAccess

/-!
# The registry of clipboard streams

The state that the connections of a host share: what its clipboard offers now, the snapshots of
the generations it has described to a connection, and the streams that are sent and received.
Every operation holds the lock of the state while it reads and changes it.
-/

namespace MDesk.Clipboard

open MDesk.Core

variable (P : Platform)

/-- `MAX_STREAMS`. -/
def maxStreams : Nat := 8

/-- The longest description of a clipboard. -/
def maxDescriptors : Nat := 4 + 16384 * 592

/-- A connection and the id of a request on it. -/
abbrev StreamKey := Int × Nat

/-- `Source`: the clipboard as it is now. -/
structure Source where
  sequence : Nat := 0
  generation : Nat := 0
  paths : List (Option PathBuf) := []
  deriving DecidableEq, Repr

/-- `Snapshot`: the clipboard of a generation, with the connections it was described to. -/
structure Snapshot where
  paths : List (Option PathBuf)
  descriptors : Bytes
  clients : List Int := []
  used : Nat
  deriving DecidableEq, Repr

/-- `Metadata`: a wait for the description of a clipboard. -/
structure Metadata where
  generation : Nat
  format : Nat
  result : Option (Except Unit Bytes) := none
  deriving DecidableEq, Repr

/-- What a registry has done: the descriptions it remembered, the senders it opened, the
connections that went and the frames it sent. -/
inductive RegistryEntry where
  | remembered (conn : Int) (generation : Nat) (paths : List (Option PathBuf))
  | opened (conn : Int) (f : Frame) (path : PathBuf)
  | disconnected (conn : Int)
  | emitted (conn : Int) (f : Frame)
  deriving DecidableEq, Repr

/-- `State`, with what it has done. -/
structure Registry where
  source : Source := {}
  snapshots : Table Nat Snapshot := ∅
  remote : Table Int Nat := ∅
  receiving : Table StreamKey Receive := ∅
  sending : Table StreamKey Sender := ∅
  metadata : Table StreamKey Metadata := ∅
  log : List RegistryEntry := []

namespace Registry

/-- A frame is sent to a connection. -/
def emit (s : Registry) (conn : Int) (f : Frame) : Registry :=
  { s with log := s.log ++ [.emitted conn f] }

/-- `announce`, with the random number it may draw. -/
def announce (s : Registry) (sequence : Nat) (localFiles : Bool) (random : Nat) :
    Nat × Registry :=
  if localFiles = false then (0, { s with source := {} })
  else if s.source.sequence ≠ sequence ∨ s.source.generation = 0 then
    (max random 1, { s with source := { sequence, generation := max random 1 } })
  else (s.source.generation, s)

/-- `snapshot`. -/
def snapshot (s : Registry) (sequence : Nat) (paths : List (Option PathBuf)) : Registry :=
  if s.source.sequence = sequence ∧ paths.length ≤ 16384 then
    { s with source := { s.source with paths } }
  else s

/-- A sender of the generation is active. -/
def Uses (s : Registry) (generation : Nat) : Prop :=
  ∃ e ∈ s.sending.entries, e.2.frame.generation = generation

instance (s : Registry) (generation : Nat) : Decidable (s.Uses generation) :=
  inferInstanceAs (Decidable (∃ e ∈ s.sending.entries, e.2.frame.generation = generation))

/-- The snapshots that no active sender uses. -/
def evictable (s : Registry) : List (Nat × Snapshot) :=
  (s.snapshots.entries.map fun e => (e.1, e.2)).filter fun e => ¬ s.Uses e.1

/-- The generation of the least recently used of them. Of several it is the one that the iteration
over the map meets first, which is `first` wherever that can be. -/
def oldest (s : Registry) (first : Nat) : Option Nat :=
  let (front, rest) := s.evictable.partition fun e => e.1 = first
  ((front ++ rest).minOn? fun e => e.2.used).map Prod.fst

/-- Make room for the snapshot of a generation. -/
def makeRoom (s : Registry) (generation first : Nat) : Registry :=
  if 32 ≤ s.snapshots.len ∧ (s.snapshots.get generation).isNone then
    match s.oldest first with
    | none => s
    | some oldest => { s with snapshots := s.snapshots.remove oldest }
  else s

/-- `remember_metadata` at the time `now`. -/
def rememberMetadata (s : Registry) (conn : Int) (generation : Nat) (data : Bytes)
    (now first : Nat) : Registry :=
  if s.source.generation ≠ generation ∨ maxDescriptors < data.length then s
  else
    let s := s.makeRoom generation first
    let snapshot := (s.snapshots.get generation).getD
      { paths := s.source.paths, descriptors := data, used := now }
    { s with
      snapshots := s.snapshots.insert generation { snapshot with
        clients := snapshot.clients.insert conn
        used := now }
      log := s.log ++ [.remembered conn generation snapshot.paths] }

/-- `cached_metadata`. -/
def cachedMetadata (s : Registry) (conn : Int) (generation now : Nat) : Option Bytes × Registry :=
  match s.snapshots.get generation with
  | none => (none, s)
  | some snapshot =>
    if conn ∉ snapshot.clients then (none, s)
    else (some snapshot.descriptors,
      { s with snapshots := s.snapshots.insert generation { snapshot with used := now } })

/-- `set_remote_generation`. -/
def setRemoteGeneration (s : Registry) (conn : Int) (generation : Nat) : Registry :=
  { s with remote := s.remote.insert conn generation }

/-- `remote_generation`. -/
def remoteGeneration (s : Registry) (conn : Int) : Nat := (s.remote.get conn).getD 0

/-- `source_is_current`. -/
def SourceIsCurrent (s : Registry) (generation sequence : Nat) : Prop :=
  generation ≠ 0 ∧ s.source.generation = generation ∧ s.source.sequence = sequence

/-- `descriptors` up to its wait, with the id it has drawn. -/
def descriptors (s : Registry) (conn : Int) (generation format id : Nat) :
    Except String Unit × Registry :=
  let id := max id 1
  if maxStreams ≤ s.metadata.len ∨ (s.metadata.get (conn, id)).isSome then
    (.error "too many clipboard metadata requests", s)
  else
    (.ok (), { s with
      metadata := s.metadata.insert (conn, id) { generation, format } }.emit conn
        { kind := .descriptorsRequest, generation, requestId := id, index := format })

/-- The end of `descriptors`: an answer, a time-out or a send that failed. -/
def endDescriptors (s : Registry) (conn : Int) (id : Nat) : Except String Bytes × Registry :=
  match s.metadata.get (conn, id) with
  | none => (.error "clipboard metadata failed or timed out", s)
  | some m =>
    let s := { s with metadata := s.metadata.remove (conn, id) }
    match m.result with
    | some (.ok data) => (.ok data, s)
    | _ => (.error "clipboard metadata failed or timed out",
        s.emit conn
          { kind := .cancel, generation := m.generation, requestId := id, index := m.format })

/-- The thread that sends `path`. One that could not be started is at its end. -/
def sender (f : Frame) (path : PathBuf) (spawned : Bool) : Sender where
  frame := f
  path := path
  window := { frame := f, sent := f.offset, acknowledged := f.offset }
  offset := f.offset
  phase := if spawned then .opening else .stopped true

/-- `start_send`; the thread may not start. -/
def startSend (s : Registry) (conn : Int) (f : Frame) (now : Nat) (spawned : Bool) :
    Except String Unit × Registry :=
  if f.requestId = 0 ∨ f.size < f.offset ∨ f.data ≠ [] ∨ f.compressed then
    (.error "invalid stream request", s)
  else if maxStreams ≤ s.sending.len ∨ (s.sending.get (conn, f.requestId)).isSome ∨
      f.generation = 0 then
    (.error "clipboard source changed or busy", s)
  else
    match (s.snapshots.get f.generation).filter (conn ∈ ·.clients) with
    | none => (.error "clipboard generation is not authorized for this connection", s)
    | some snapshot =>
      let s := { s with
        snapshots := s.snapshots.insert f.generation { snapshot with used := now } }
      match snapshot.paths[f.index]?.join with
      | none => (.error "clipboard file is unavailable", s)
      | some path =>
        let s := { s with
          sending := s.sending.insert (conn, f.requestId) (sender f path spawned)
          log := s.log ++ [.opened conn f path] }
        if spawned then (.ok (), s)
        else (.error "cannot start clipboard sender", s.emit conn { f with kind := .error })

/-- A step of the thread of a sender. -/
def advance (s : Registry) (key : StreamKey) (fs : Fs) : Registry :=
  match s.sending.get key with
  | none => s
  | some sender =>
    let (sender, frames) := sender.advance P fs
    { s with
      sending := s.sending.insert key sender
      log := s.log ++ frames.map (.emitted key.1) }

/-- The thread of a sender gives up: its credit is late, or a frame cannot be sent. -/
def abandon (s : Registry) (key : StreamKey) : Registry :=
  match s.sending.get key with
  | none => s
  | some sender =>
    { s with
      sending := s.sending.insert key sender.fail.1
      log := s.log ++ sender.fail.2.map (.emitted key.1) }

/-- The thread of a sender ends, or has not started. -/
def endSend (s : Registry) (key : StreamKey) : Registry :=
  match s.sending.get key with
  | none => s
  | some sender =>
    match sender.phase with
    | .stopped _ => { s with sending := s.sending.remove key }
    | _ => s

/-- What an answer makes of a wait for a description. -/
def Metadata.answer (m : Metadata) (f : Frame) : Metadata :=
  if m.generation = f.generation ∧ m.format = f.index ∧ f.offset = 0 ∧ f.size = 0 ∧
      m.result.isNone then
    { m with
      result := some
        (if f.kind = .descriptorsResponse ∧ ¬ f.compressed ∧ 4 ≤ f.data.length ∧
            f.data.length ≤ maxDescriptors then .ok f.data
        else .error ()) }
  else m

/-- `handle`. -/
def handle (s : Registry) (conn : Int) (f : Frame) (now : Nat) (spawned : Bool) : Registry :=
  let key := (conn, f.requestId)
  if (f.kind = .descriptorsResponse ∨ f.kind = .error) ∧ (s.metadata.get key).isSome then
    { s with metadata := s.metadata.modify key (Metadata.answer · f) }
  else
    match f.kind with
    | .request =>
      match s.startSend conn f now spawned with
      | (.ok (), s) => s
      | (.error _, s) => s.emit conn { f with kind := .error, data := [], compressed := false }
    | .block | .end | .error =>
      { s with receiving := s.receiving.modify key fun r => r.handle P f }
    | .credit | .cancel =>
      { s with sending := s.sending.modify key fun sender =>
          { sender with window := sender.window.handle f } }
    | _ => s

/-- The part of `read` that asks for a new stream, with the id it has drawn. -/
def openReceive (s : Registry) (conn : Int) (call : ReadCall) (id : Nat) : Registry :=
  let id := max id 1
  if maxStreams ≤ s.receiving.len ∨ (s.receiving.get (conn, id)).isSome then s
  else
    { s with receiving := s.receiving.insert (conn, id) (Receive.new (call.request id)) }.emit conn
      (call.request id)

/-- A round of `read` on a stream. -/
def pull (s : Registry) (key : StreamKey) (want : Nat) : Registry :=
  { s with receiving := s.receiving.modify key fun r => (r.take want).2.2 }

/-- `release`. -/
def release (s : Registry) (conn : Int) (id : Nat) : Registry :=
  match s.receiving.get (conn, id) with
  | none => s
  | some r =>
    { s with receiving := s.receiving.remove (conn, id) }.emit conn
      { r.frame with kind := .cancel, offset := r.consumed }

/-- `disconnect` with the lock of the state held. -/
def forget (s : Registry) (conn : Int) : Registry :=
  { s with
    remote := s.remote.remove conn
    snapshots := (s.snapshots.mapValues fun snapshot =>
      { snapshot with clients := snapshot.clients.filter (· ≠ conn) }).retain fun _ snapshot =>
        snapshot.clients ≠ []
    metadata := ⟨s.metadata.entries.map fun e =>
      ⟨e.1, if e.1.1 = conn then { e.2 with result := some (.error ()) } else e.2⟩, by
        rw [List.NodupKeys, List.keys, List.map_map]
        exact s.metadata.nodupKeys⟩
    log := s.log ++ [.disconnected conn] }

/-- The part of `disconnect` for a sender of the connection. -/
def cancelSender (s : Registry) (key : StreamKey) : Registry :=
  { s with sending := s.sending.modify key fun sender =>
      { sender with window := { sender.window with cancelled := true } } }

/-- `disconnect`. -/
def disconnect (s : Registry) (conn : Int) : Registry :=
  let receivers := (s.receiving.keys.filter fun key => key.1 = conn).map Prod.snd
  let senders := s.sending.keys.filter fun key => key.1 = conn
  senders.foldl cancelSender (receivers.foldl (fun s id => s.release conn id) (s.forget conn))

end Registry

/-- What happens to a registry, with the time, the random numbers and the outcomes of the system
that an operation meets. A `disconnect` is made of `forget`, `release` and `cancelSender`. -/
inductive RegistryEvent where
  | announce (sequence : Nat) (localFiles : Bool) (random : Nat)
  | snapshot (sequence : Nat) (paths : List (Option PathBuf))
  | rememberMetadata (conn : Int) (generation : Nat) (data : Bytes) (now first : Nat)
  | cachedMetadata (conn : Int) (generation now : Nat)
  | setRemoteGeneration (conn : Int) (generation : Nat)
  | descriptors (conn : Int) (generation format id : Nat)
  | endDescriptors (conn : Int) (id : Nat)
  | startSend (conn : Int) (f : Frame) (now : Nat) (spawned : Bool)
  | advance (key : StreamKey) (fs : Fs)
  | abandon (key : StreamKey)
  | endSend (key : StreamKey)
  | handle (conn : Int) (f : Frame) (now : Nat) (spawned : Bool)
  | openReceive (conn : Int) (call : ReadCall) (id : Nat)
  | pull (key : StreamKey) (want : Nat)
  | release (conn : Int) (id : Nat)
  | forget (conn : Int)
  | cancelSender (key : StreamKey)

namespace Registry

/-- The registry behind an event. -/
def step (s : Registry) : RegistryEvent → Registry
  | .announce sequence localFiles random => (s.announce sequence localFiles random).2
  | .snapshot sequence paths => s.snapshot sequence paths
  | .rememberMetadata conn generation data now first =>
    s.rememberMetadata conn generation data now first
  | .cachedMetadata conn generation now => (s.cachedMetadata conn generation now).2
  | .setRemoteGeneration conn generation => s.setRemoteGeneration conn generation
  | .descriptors conn generation format id => (s.descriptors conn generation format id).2
  | .endDescriptors conn id => (s.endDescriptors conn id).2
  | .startSend conn f now spawned => (s.startSend conn f now spawned).2
  | .advance key fs => s.advance P key fs
  | .abandon key => s.abandon key
  | .endSend key => s.endSend key
  | .handle conn f now spawned => s.handle P conn f now spawned
  | .openReceive conn call id => s.openReceive conn call id
  | .pull key want => s.pull key want
  | .release conn id => s.release conn id
  | .forget conn => s.forget conn
  | .cancelSender key => s.cancelSender key

/-- The events that a `disconnect` consists of. Others may come in between. -/
def disconnectEvents (s : Registry) (conn : Int) : List RegistryEvent :=
  .forget conn ::
    ((s.receiving.keys.filter fun key => key.1 = conn).map fun key => .release conn key.2) ++
      (s.sending.keys.filter fun key => key.1 = conn).map .cancelSender

theorem disconnect_eq_run (s : Registry) (conn : Int) :
    s.disconnect conn = run (step P) s (s.disconnectEvents conn) := by
  unfold disconnect disconnectEvents Core.run
  dsimp only
  rw [List.foldl_append, List.foldl_cons, List.foldl_map, List.foldl_map, List.foldl_map]
  rfl

end Registry

end MDesk.Clipboard
