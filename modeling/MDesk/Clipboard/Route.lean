import MDesk.Clipboard.Frame
import MDesk.Core.MachineInt
import MDesk.Core.Run
import MDesk.Core.Table

/-!
# The clipboard file route

The controller passes clipboard messages between its peers. Ids of streamed requests
are replaced by its own, and given back in the responses; requests for format data
carry no id and wait in one queue an owner.
-/

namespace MDesk.Clipboard

open MDesk.Core

/-- Who waits for a response. -/
inductive Destination where
  | local
  | peer (name : String)
  deriving DecidableEq, Repr

abbrev Pending := Destination × ClipboardFile

abbrev Forward := String × ClipboardFile

/-- `FileRoute`. -/
structure FileRoute where
  owner : Option String := none
  generations : Table Nat String := ∅
  nextId : Nat := 0
  requests : Table (String × Nat) (Destination × Nat × Nat) := ∅
  reverse : Table (Destination × Nat × Nat) (String × Nat) := ∅
  metadata : Table String (List Pending) := ∅
  legacy : Table (String × Int) (Destination × Int) := ∅

namespace FileRoute

/-- The id `id` gives out next. -/
def freshId (r : FileRoute) : Nat := max ((r.nextId + 1) % 2 ^ 64) 1

/-- `request`: nothing when the table is full. -/
def request (r : FileRoute) (owner : String) (dest : Destination) (f : Frame) :
    Option (Frame × FileRoute) :=
  if 1024 ≤ r.requests.len then none
  else
    some ({ f with requestId := r.freshId }, { r with
      nextId := r.freshId
      requests := r.requests.insert (owner, r.freshId) (dest, f.requestId, f.generation)
      reverse := r.reverse.insert (dest, f.generation, f.requestId) (owner, r.freshId) })

/-- `control`: the owner of the stream, and the frame with its id there. -/
def control (r : FileRoute) (dest : Destination) (f : Frame) :
    Option (String × Frame × FileRoute) :=
  match r.reverse.get (dest, f.generation, f.requestId) with
  | none => none
  | some (owner, id) =>
    some (owner, { f with requestId := id },
      if f.kind = .cancel then { r with
        reverse := r.reverse.remove (dest, f.generation, f.requestId)
        requests := r.requests.remove (owner, id) }
      else r)

/-- The queue of an owner. -/
def queue (r : FileRoute) (owner : String) : List Pending := (r.metadata.get owner).getD []

/-- `enqueue_metadata`: the message when it is the only one in the queue. -/
def enqueueMetadata (r : FileRoute) (owner : String) (dest : Destination) (msg : ClipboardFile) :
    Option ClipboardFile × FileRoute :=
  if 32 ≤ (r.queue owner).length then (none, r)
  else
    let queue := r.queue owner ++ [(dest, msg)]
    (if queue.length = 1 then some msg else none,
      { r with metadata := r.metadata.insert owner queue })

/-- `outgoing`: the message to send to the peer, if it goes out. -/
def outgoing (r : FileRoute) (peer : String) (msg : ClipboardFile) :
    Option ClipboardFile × FileRoute :=
  match msg with
  | .formatList _ => (some msg, { r with owner := none })
  | .fileStream f =>
    match f.kind with
    | .request | .descriptorsRequest =>
      match r.request peer .local f with
      | none => (none, r)
      | some (f, r) => (some (.fileStream f), r)
    | .credit | .cancel =>
      match r.control .local f with
      | none => (none, r)
      | some (_, f, r) => (some (.fileStream f), r)
    | _ => (some msg, r)
  | .formatDataRequest _ => r.enqueueMetadata peer .local msg
  | .fileContentsRequest streamId listIndex dwFlags low high cb haveId clipId =>
    if 1024 ≤ r.legacy.len then (none, r)
    else
      let id := wrapI32 r.freshId
      (some (.fileContentsRequest id listIndex dwFlags low high cb haveId clipId), { r with
        nextId := r.freshId
        legacy := r.legacy.insert (peer, id) (.local, streamId) })
  | _ => (some msg, r)

/-- What `incoming` returns: the message as it was changed, whether it was consumed, and
the messages to pass on. -/
structure Routed where
  route : FileRoute
  msg : ClipboardFile
  handled : Bool := false
  forwards : List Forward := []

/-- The same message to all targets but its source. -/
def broadcast (source : String) (msg : ClipboardFile) (targets : List String) : List Forward :=
  (targets.filter (· ≠ source)).map fun target => (target, msg)

/-- The format list part of `incoming`. -/
def incomingFormats (r : FileRoute) (source : String) (formatList : List (Int × String))
    (targets : List String) : Routed :=
  let msg := ClipboardFile.formatList formatList
  let generation := generation formatList
  if generation = 0 then
    { route := { r with owner := some source }
      msg
      forwards := broadcast source msg targets }
  else if (r.generations.get generation).any (· ≠ source) then
    { route := r, msg, handled := true }
  else
    { route := { r with
        generations := (if 64 ≤ r.generations.len then ∅ else r.generations).insert generation
          source
        owner := some source }
      msg
      forwards := broadcast source msg targets }

/-- The stream part of `incoming`. -/
def incomingStream (r : FileRoute) (source : String) (f : Frame) : Routed :=
  match f.kind with
  | .request | .descriptorsRequest =>
    match (r.generations.get f.generation).filter (· ≠ source) with
    | none => { route := r, msg := .fileStream f }
    | some owner =>
      match r.request owner (.peer source) f with
      | some (f, r) =>
        { route := r, msg := .fileStream f, handled := true, forwards := [(owner, .fileStream f)] }
      | none =>
        let f := { f with kind := .error }
        { route := r, msg := .fileStream f, handled := true, forwards := [(source, .fileStream f)] }
  | .credit | .cancel =>
    match r.control (.peer source) f with
    | none => { route := r, msg := .fileStream f }
    | some (owner, f, r) =>
      { route := r, msg := .fileStream f, handled := true, forwards := [(owner, .fileStream f)] }
  | .block | .end | .error | .descriptorsResponse =>
    match r.requests.get (source, f.requestId) with
    | none => { route := r, msg := .fileStream f }
    | some (dest, original, generation) =>
      if generation ≠ f.generation then { route := r, msg := .fileStream f, handled := true }
      else
        let r := if f.kind ≠ .block then { r with
            requests := r.requests.remove (source, f.requestId)
            reverse := r.reverse.remove (dest, generation, original) }
          else r
        let f := { f with requestId := original }
        match dest with
        | .peer peer =>
          { route := r, msg := .fileStream f, handled := true, forwards := [(peer, .fileStream f)] }
        | .local => { route := r, msg := .fileStream f }
  | .unknown _ => { route := r, msg := .fileStream f }

/-- The request at the head of a queue, for its owner. -/
def nextRequest (owner : String) : List Pending → List Forward
  | [] => []
  | (_, next) :: _ => [(owner, next)]

/-- The format data response part of `incoming`. -/
def incomingResponse (r : FileRoute) (source : String) (msg : ClipboardFile) : Routed :=
  match r.queue source with
  | [] => { route := { r with metadata := r.metadata.insert source [] }, msg }
  | (dest, _) :: queue =>
    let r := { r with metadata := r.metadata.insert source queue }
    match dest with
    | .peer peer =>
      { route := r, msg, handled := true, forwards := nextRequest source queue ++ [(peer, msg)] }
    | .local => { route := r, msg, forwards := nextRequest source queue }

/-- `incoming`. -/
def incoming (r : FileRoute) (source : String) (msg : ClipboardFile) (targets : List String) :
    Routed :=
  match msg with
  | .formatList formatList => r.incomingFormats source formatList targets
  | .tryEmpty =>
    if r.owner = some source then
      { route := { r with owner := none }, msg, forwards := broadcast source msg targets }
    else { route := r, msg }
  | .fileStream f => r.incomingStream source f
  | .formatDataRequest _ =>
    match r.owner.filter (· ≠ source) with
    | none => { route := r, msg }
    | some owner =>
      let (forwarded, r) := r.enqueueMetadata owner (.peer source) msg
      { route := r
        msg
        handled := true
        forwards := forwarded.toList.map fun msg => (owner, msg) }
  | .formatDataResponse _ _ => r.incomingResponse source msg
  | .fileContentsRequest streamId listIndex dwFlags low high cb haveId clipId =>
    match r.owner.filter (· ≠ source) with
    | none => { route := r, msg }
    | some owner =>
      if 1024 ≤ r.legacy.len then { route := r, msg, handled := true }
      else
        let id := wrapI32 r.freshId
        let msg := .fileContentsRequest id listIndex dwFlags low high cb haveId clipId
        { route := { r with
            nextId := r.freshId
            legacy := r.legacy.insert (owner, id) (.peer source, streamId) }
          msg
          handled := true
          forwards := [(owner, msg)] }
  | .fileContentsResponse msgFlags streamId requestedData =>
    match r.legacy.get (source, streamId) with
    | none => { route := r, msg }
    | some (dest, original) =>
      let r := { r with legacy := r.legacy.remove (source, streamId) }
      let msg := .fileContentsResponse msgFlags original requestedData
      match dest with
      | .peer peer => { route := r, msg, handled := true, forwards := [(peer, msg)] }
      | .local => { route := r, msg }
  | .other _ => { route := r, msg }

/-- The queue of an owner without the waiting requests of a peer; its head is in flight. -/
def dropWaiting (peer : String) : List Pending → List Pending
  | [] => []
  | head :: queue => head :: queue.filter fun pending => pending.1 ≠ .peer peer

/-- `disconnect`. -/
def disconnect (r : FileRoute) (peer : String) : FileRoute :=
  { r with
    owner := if r.owner = some peer then none else r.owner
    generations := r.generations.retain fun _ p => p ≠ peer
    requests := r.requests.retain fun key value => key.1 ≠ peer ∧ value.1 ≠ .peer peer
    reverse := r.reverse.retain fun key value => value.1 ≠ peer ∧ key.1 ≠ .peer peer
    legacy := r.legacy.retain fun key value => key.1 ≠ peer ∧ value.1 ≠ .peer peer
    metadata := (r.metadata.remove peer).mapValues (dropWaiting peer) }

section Streams

variable {r : FileRoute} {source peer : String} {f : Frame}

/-- A local request for a stream. -/
theorem outgoing_asks (hf : f.kind.asks = true) : r.outgoing peer (.fileStream f) =
    match r.request peer .local f with
    | none => (none, r)
    | some (f, r) => (some (.fileStream f), r) := by
  rcases f with ⟨kind⟩
  cases kind <;> first | rfl | cases hf

/-- A local control frame. -/
theorem outgoing_controls (hf : f.kind.controls = true) : r.outgoing peer (.fileStream f) =
    match r.control .local f with
    | none => (none, r)
    | some (_, f, r) => (some (.fileStream f), r) := by
  rcases f with ⟨kind⟩
  cases kind <;> first | rfl | cases hf

/-- Any other frame goes out as it is. -/
theorem outgoing_passes (hasks : f.kind.asks = false) (hcontrols : f.kind.controls = false) :
    r.outgoing peer (.fileStream f) = (some (.fileStream f), r) := by
  rcases f with ⟨kind⟩
  cases kind <;> first | rfl | exact Bool.noConfusion hasks | exact Bool.noConfusion hcontrols

/-- A request for a stream goes to the peer that announced its generation. -/
theorem incomingStream_asks (hf : f.kind.asks = true) : r.incomingStream source f =
    match (r.generations.get f.generation).filter (· ≠ source) with
    | none => { route := r, msg := .fileStream f }
    | some owner =>
      match r.request owner (.peer source) f with
      | some (f, r) =>
        { route := r, msg := .fileStream f, handled := true, forwards := [(owner, .fileStream f)] }
      | none =>
        { route := r
          msg := .fileStream { f with kind := .error }
          handled := true
          forwards := [(source, .fileStream { f with kind := .error })] } := by
  rcases f with ⟨kind⟩
  cases kind <;> first | rfl | cases hf

/-- A control frame goes to the owner of its stream. -/
theorem incomingStream_controls (hf : f.kind.controls = true) : r.incomingStream source f =
    match r.control (.peer source) f with
    | none => { route := r, msg := .fileStream f }
    | some (owner, f, r) =>
      { route := r, msg := .fileStream f, handled := true,
        forwards := [(owner, .fileStream f)] } := by
  rcases f with ⟨kind⟩
  cases kind <;> first | rfl | cases hf

/-- The route behind an answer, which ends its request unless it is a block. -/
def answered (r : FileRoute) (source : String) (f : Frame) (dest : Destination)
    (original generation : Nat) : FileRoute :=
  if f.kind ≠ .block then { r with
    requests := r.requests.remove (source, f.requestId)
    reverse := r.reverse.remove (dest, generation, original) }
  else r

/-- An answer goes to whoever waits for it. -/
theorem incomingStream_answers (hf : f.kind.answers = true) : r.incomingStream source f =
    match r.requests.get (source, f.requestId) with
    | none => { route := r, msg := .fileStream f }
    | some (dest, original, generation) =>
      if generation ≠ f.generation then { route := r, msg := .fileStream f, handled := true }
      else
        match dest with
        | .peer peer =>
          { route := r.answered source f dest original generation
            msg := .fileStream { f with requestId := original }
            handled := true
            forwards := [(peer, .fileStream { f with requestId := original })] }
        | .local =>
          { route := r.answered source f dest original generation
            msg := .fileStream { f with requestId := original } } := by
  rcases f with ⟨kind⟩
  cases kind <;> first | rfl | cases hf

theorem incomingStream_unknown {n : Nat} (hf : f.kind = .unknown n) :
    r.incomingStream source f = { route := r, msg := .fileStream f } := by
  unfold incomingStream
  rw [hf]

end Streams

end FileRoute

/-- The calls that change a route. -/
inductive RouteEvent where
  | outgoing (peer : String) (msg : ClipboardFile)
  | incoming (source : String) (msg : ClipboardFile) (targets : List String)
  | disconnect (peer : String)
  deriving DecidableEq, Repr

/-- The call may change a queue of format data requests. -/
def RouteEvent.queues : RouteEvent → Bool
  | .outgoing _ (.formatDataRequest _) => true
  | .incoming _ (.formatDataRequest _) _ => true
  | .incoming _ (.formatDataResponse _ _) _ => true
  | .disconnect _ => true
  | _ => false

/-- The route behind a call. -/
def FileRoute.step (r : FileRoute) : RouteEvent → FileRoute
  | .outgoing peer msg => (r.outgoing peer msg).2
  | .incoming source msg targets => (r.incoming source msg targets).route
  | .disconnect peer => r.disconnect peer

end MDesk.Clipboard
