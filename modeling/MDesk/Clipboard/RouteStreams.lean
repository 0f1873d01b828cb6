import MDesk.Clipboard.Route

/-!
# Forwarded streams

What the route forwards when a peer sends a frame: one of three kinds of frames, and a
frame is forwarded in no other way, since the queues of the route hold requests for
format data only.
-/

namespace MDesk.Clipboard

open MDesk.Core

namespace FileRoute

/-- The queues hold requests for format data. -/
def QueuesAsk (r : FileRoute) : Prop :=
  ∀ owner, ∀ pending ∈ r.queue owner, ∃ id, pending.2 = .formatDataRequest id

variable {r : FileRoute} {owner source peer : String} {dest : Destination} {f f' : Frame}

theorem queue_insert {q : List Pending} (owner' : String) :
    queue { r with metadata := r.metadata.insert owner q } owner' =
      if owner' = owner then q else r.queue owner' := by
  unfold queue
  rw [Table.get_insert]
  split_ifs <;> rfl

/-- A request for format data is sent at once when nobody waits. -/
theorem enqueueMetadata_fst {msg : ClipboardFile} :
    (r.enqueueMetadata owner dest msg).1 = if r.queue owner = [] then some msg else none := by
  unfold enqueueMetadata
  cases hq : r.queue owner with
  | nil => rfl
  | cons head queue =>
    rw [if_neg (List.cons_ne_nil head queue)]
    split_ifs
    · rfl
    · exact if_neg (by simp)

theorem eq_of_enqueueMetadata {msg msg' : ClipboardFile}
    (h : (r.enqueueMetadata owner dest msg).1 = some msg') : msg' = msg := by
  rw [enqueueMetadata_fst] at h
  split_ifs at h
  exact (Option.some.inj h).symm

/-- Waiting with a request for format data. -/
theorem queue_enqueueMetadata {msg : ClipboardFile} (owner' : String) :
    (r.enqueueMetadata owner dest msg).2.queue owner' =
      if owner' = owner ∧ (r.queue owner).length < 32 then r.queue owner ++ [(dest, msg)]
      else r.queue owner' := by
  unfold enqueueMetadata
  split_ifs with hfull hif hif
  · omega
  · rfl
  · rw [queue_insert, if_pos hif.1]
  · rw [queue_insert, if_neg fun h => hif ⟨h, by omega⟩]

theorem queue_disconnect (owner : String) : (r.disconnect peer).queue owner =
    if owner = peer then [] else dropWaiting peer (r.queue owner) := by
  unfold disconnect queue
  rw [Table.get_mapValues, Table.get_remove]
  split_ifs
  · rfl
  · cases r.metadata.get owner <;> rfl

theorem mem_of_mem_dropWaiting {queue : List Pending} {pending : Pending}
    (h : pending ∈ dropWaiting peer queue) : pending ∈ queue := by
  cases queue with
  | nil => exact h
  | cons head queue =>
    rcases List.mem_cons.mp h with rfl | h
    · exact List.mem_cons_self
    · exact List.mem_cons_of_mem _ (List.mem_of_mem_filter h)

theorem QueuesAsk.of_queue {r' : FileRoute} (h : r.QueuesAsk)
    (hq : ∀ owner, r'.queue owner = r.queue owner) : r'.QueuesAsk := by
  intro owner pending hmem
  rw [hq] at hmem
  exact h owner pending hmem

theorem QueuesAsk.enqueueMetadata (h : r.QueuesAsk) (owner : String) (dest : Destination)
    (id : Int) : (r.enqueueMetadata owner dest (.formatDataRequest id)).2.QueuesAsk := by
  intro owner' pending hmem
  rw [queue_enqueueMetadata] at hmem
  split_ifs at hmem
  · rcases List.mem_append.mp hmem with hmem | hmem
    · exact h owner pending hmem
    · rw [List.mem_singleton.mp hmem]
      exact ⟨id, rfl⟩
  · exact h owner' pending hmem

/-- What frames leave alone. -/
structure SameRest (r r' : FileRoute) : Prop where
  owner : r'.owner = r.owner
  generations : r'.generations = r.generations
  metadata : r'.metadata = r.metadata
  legacy : r'.legacy = r.legacy

theorem SameRest.refl (r : FileRoute) : SameRest r r := ⟨rfl, rfl, rfl, rfl⟩

theorem SameRest.queue {r' : FileRoute} (h : SameRest r r') (owner : String) :
    r'.queue owner = r.queue owner := by
  rw [FileRoute.queue, h.metadata, FileRoute.queue]

theorem request_rest {r' : FileRoute} (h : r.request owner dest f = some (f', r')) :
    SameRest r r' := by
  unfold request at h
  split_ifs at h
  cases h
  exact ⟨rfl, rfl, rfl, rfl⟩

theorem control_rest {r' : FileRoute} (h : r.control dest f = some (owner, f', r')) :
    SameRest r r' := by
  unfold control at h
  split at h
  · cases h
  · cases h
    split_ifs <;> exact ⟨rfl, rfl, rfl, rfl⟩

theorem answered_rest {original generation : Nat} :
    SameRest r (r.answered source f dest original generation) := by
  unfold answered
  split_ifs <;> exact ⟨rfl, rfl, rfl, rfl⟩

theorem incomingStream_rest : SameRest r (r.incomingStream source f).route := by
  rcases f.kind.asks_or with hf | hf | hf | ⟨n, hf⟩
  · rw [incomingStream_asks hf]
    split
    · exact .refl r
    · split
      · rename_i hreq
        exact request_rest hreq
      · exact .refl r
  · rw [incomingStream_controls hf]
    split
    · exact .refl r
    · rename_i hctl
      exact control_rest hctl
  · rw [incomingStream_answers hf]
    split
    · exact .refl r
    · split_ifs
      · exact .refl r
      · split <;> exact answered_rest
  · rw [incomingStream_unknown hf]
    exact .refl r

theorem outgoing_stream_rest : SameRest r (r.outgoing peer (.fileStream f)).2 := by
  by_cases hasks : f.kind.asks = true
  · rw [outgoing_asks hasks]
    split
    · exact .refl r
    · rename_i hreq
      exact request_rest hreq
  · by_cases hcontrols : f.kind.controls = true
    · rw [outgoing_controls hcontrols]
      split
      · exact .refl r
      · rename_i hctl
        exact control_rest hctl
    · rw [outgoing_passes (eq_false_of_ne_true hasks) (eq_false_of_ne_true hcontrols)]
      exact .refl r

theorem queue_incomingFormats {formatList : List (Int × String)} {targets : List String}
    (owner' : String) :
    (r.incomingFormats source formatList targets).route.queue owner' = r.queue owner' := by
  unfold incomingFormats
  dsimp only
  split_ifs <;> rfl

/-- An answer takes the head of its owner's queue. -/
theorem queue_incomingResponse {msg : ClipboardFile} (owner' : String) :
    (r.incomingResponse source msg).route.queue owner' =
      if owner' = source then (r.queue source).tail else r.queue owner' := by
  unfold incomingResponse
  split
  · rename_i hnil
    rw [queue_insert, hnil]
    rfl
  · rename_i dest' pending queue hqueue
    rw [hqueue]
    cases dest' <;> exact queue_insert owner'

/-- Local messages other than frames leave the tables of streams alone. -/
theorem outgoing_tables {msg : ClipboardFile} (hmsg : ∀ f, msg ≠ .fileStream f) (peer : String) :
    (r.outgoing peer msg).2.requests = r.requests ∧
      (r.outgoing peer msg).2.reverse = r.reverse := by
  cases msg with
  | fileStream f => exact absurd rfl (hmsg f)
  | formatDataRequest id =>
    simp only [outgoing, FileRoute.enqueueMetadata]
    split_ifs <;> exact ⟨rfl, rfl⟩
  | fileContentsRequest streamId listIndex dwFlags low high cb haveId clipId =>
    simp only [outgoing]
    split_ifs <;> exact ⟨rfl, rfl⟩
  | _ => exact ⟨rfl, rfl⟩

/-- Messages of a peer other than frames leave the tables of streams alone. -/
theorem incoming_tables {msg : ClipboardFile} (hmsg : ∀ f, msg ≠ .fileStream f) (source : String)
    (targets : List String) :
    (r.incoming source msg targets).route.requests = r.requests ∧
      (r.incoming source msg targets).route.reverse = r.reverse := by
  cases msg with
  | fileStream f => exact absurd rfl (hmsg f)
  | formatList formatList =>
    simp only [incoming, incomingFormats]
    split_ifs <;> exact ⟨rfl, rfl⟩
  | tryEmpty =>
    simp only [incoming]
    split_ifs <;> exact ⟨rfl, rfl⟩
  | formatDataRequest id =>
    simp only [incoming]
    split
    · exact ⟨rfl, rfl⟩
    · simp only [FileRoute.enqueueMetadata]
      split_ifs <;> exact ⟨rfl, rfl⟩
  | formatDataResponse flags data =>
    simp only [incoming, incomingResponse]
    split
    · exact ⟨rfl, rfl⟩
    · split <;> exact ⟨rfl, rfl⟩
  | fileContentsRequest streamId listIndex dwFlags low high cb haveId clipId =>
    simp only [incoming]
    split
    · exact ⟨rfl, rfl⟩
    · split_ifs <;> exact ⟨rfl, rfl⟩
  | fileContentsResponse flags streamId data =>
    simp only [incoming]
    split
    · exact ⟨rfl, rfl⟩
    · split <;> exact ⟨rfl, rfl⟩
  | other n => exact ⟨rfl, rfl⟩

/-- Other calls leave the queues alone. -/
theorem queue_step {e : RouteEvent} (he : e.queues = false) (owner : String) :
    (r.step e).queue owner = r.queue owner := by
  cases e with
  | outgoing peer msg =>
    cases msg with
    | fileStream f => exact outgoing_stream_rest.queue owner
    | formatDataRequest id => cases he
    | fileContentsRequest streamId listIndex dwFlags low high cb haveId clipId =>
      simp only [FileRoute.step, outgoing]
      split_ifs <;> rfl
    | _ => rfl
  | incoming source msg targets =>
    cases msg with
    | fileStream f => exact incomingStream_rest.queue owner
    | formatList formatList => exact queue_incomingFormats owner
    | formatDataRequest id => cases he
    | formatDataResponse flags data => cases he
    | fileContentsRequest streamId listIndex dwFlags low high cb haveId clipId =>
      simp only [FileRoute.step, incoming]
      split
      · rfl
      · split_ifs <;> rfl
    | fileContentsResponse flags streamId data =>
      simp only [FileRoute.step, incoming]
      split
      · rfl
      · split <;> rfl
    | tryEmpty =>
      simp only [FileRoute.step, incoming]
      split_ifs <;> rfl
    | other n => rfl
  | disconnect peer => cases he

/-- Every call keeps requests for format data in the queues. -/
theorem QueuesAsk.step (h : r.QueuesAsk) (e : RouteEvent) : (r.step e).QueuesAsk := by
  by_cases he : e.queues = true
  · cases e with
    | outgoing peer msg =>
      cases msg with
      | formatDataRequest id => exact h.enqueueMetadata peer .local id
      | _ => cases he
    | incoming source msg targets =>
      cases msg with
      | formatDataRequest id =>
        simp only [FileRoute.step, FileRoute.incoming]
        split
        · exact h
        · exact h.enqueueMetadata _ _ id
      | formatDataResponse flags data =>
        intro owner pending hmem
        rw [FileRoute.step, FileRoute.incoming, queue_incomingResponse] at hmem
        split_ifs at hmem
        · exact h source pending (List.mem_of_mem_tail hmem)
        · exact h owner pending hmem
      | _ => cases he
    | disconnect peer =>
      intro owner pending hmem
      rw [FileRoute.step, queue_disconnect] at hmem
      split_ifs at hmem
      · cases hmem
      · exact h owner pending (mem_of_mem_dropWaiting hmem)
  · exact h.of_queue (queue_step (eq_false_of_ne_true he))

/-- The frames that are forwarded: a request to the owner of its generation, or back as an
error when the table is full; a control frame; an answer to the peer that waits for it. -/
inductive StreamForward (r : FileRoute) (source : String) (f : Frame) : String → Frame → Prop
  | asked {owner : String} (hf : f.kind.asks = true)
      (hgen : r.generations.get f.generation = some owner) (hne : owner ≠ source)
      (hlen : r.requests.len < 1024) :
      StreamForward r source f owner { f with requestId := r.freshId }
  | refused (hf : f.kind.asks = true) (hlen : 1024 ≤ r.requests.len) :
      StreamForward r source f source { f with kind := .error }
  | controlled {owner : String} {id : Nat} (hf : f.kind.controls = true)
      (hget : r.reverse.get (.peer source, f.generation, f.requestId) = some (owner, id)) :
      StreamForward r source f owner { f with requestId := id }
  | answered {peer : String} {original : Nat} (hf : f.kind.answers = true)
      (hget : r.requests.get (source, f.requestId) = some (.peer peer, original, f.generation)) :
      StreamForward r source f peer { f with requestId := original }

theorem streamForward_of_mem (h : (peer, .fileStream f') ∈ (r.incomingStream source f).forwards) :
    StreamForward r source f peer f' := by
  rcases f.kind.asks_or with hf | hf | hf | ⟨n, hf⟩
  · rw [incomingStream_asks hf] at h
    split at h
    · cases h
    · rename_i owner hgen
      rw [Option.filter_eq_some_iff, decide_eq_true_eq] at hgen
      split at h
      · rename_i g r' hreq
        unfold request at hreq
        split_ifs at hreq with hlen
        cases hreq
        cases List.mem_singleton.mp h
        exact .asked hf hgen.1 hgen.2 (Nat.lt_of_not_le hlen)
      · rename_i hreq
        unfold request at hreq
        split_ifs at hreq with hlen
        cases List.mem_singleton.mp h
        exact .refused hf hlen
  · rw [incomingStream_controls hf] at h
    split at h
    · cases h
    · rename_i owner g r' hctl
      unfold control at hctl
      split at hctl
      · cases hctl
      · rename_i hget
        cases hctl
        cases List.mem_singleton.mp h
        exact .controlled hf hget
  · rw [incomingStream_answers hf] at h
    split at h
    · cases h
    · rename_i dest original generation hget
      split_ifs at h with hgen
      · cases h
      · rw [not_not] at hgen
        subst hgen
        cases dest with
        | peer peer =>
          cases List.mem_singleton.mp h
          exact .answered hf hget
        | «local» => cases h
  · rw [incomingStream_unknown hf] at h
    cases h

/-- Every message that is forwarded. -/
inductive Forwarded (r : FileRoute) (source : String) :
    ClipboardFile → String → ClipboardFile → Prop
  | announced {msg : ClipboardFile} {peer : String}
      (hmsg : msg = .tryEmpty ∨ ∃ formats, msg = .formatList formats) :
      Forwarded r source msg peer msg
  | stream {f f' : Frame} {peer : String} (h : StreamForward r source f peer f') :
      Forwarded r source (.fileStream f) peer (.fileStream f')
  | dataAsked {id : Int} {owner : String} (howner : r.owner = some owner) :
      Forwarded r source (.formatDataRequest id) owner (.formatDataRequest id)
  | dataNext {flags id : Int} {data : List UInt8} :
      Forwarded r source (.formatDataResponse flags data) source (.formatDataRequest id)
  | dataAnswered {flags : Int} {data : List UInt8} {peer : String} {msg : ClipboardFile}
      {queue : List Pending} (hqueue : r.queue source = (.peer peer, msg) :: queue) :
      Forwarded r source (.formatDataResponse flags data) peer (.formatDataResponse flags data)
  | contentsAsked {streamId id listIndex dwFlags low high cb clipId : Int} {haveId : Bool}
      {owner : String} (howner : r.owner = some owner) :
      Forwarded r source
        (.fileContentsRequest streamId listIndex dwFlags low high cb haveId clipId) owner
        (.fileContentsRequest id listIndex dwFlags low high cb haveId clipId)
  | contentsAnswered {flags streamId original : Int} {data : List UInt8} {peer : String}
      (hget : r.legacy.get (source, streamId) = some (.peer peer, original)) :
      Forwarded r source (.fileContentsResponse flags streamId data) peer
        (.fileContentsResponse flags original data)

theorem msg_of_mem_broadcast {msg msg' : ClipboardFile} {targets : List String}
    (h : (peer, msg') ∈ broadcast source msg targets) : msg' = msg := by
  obtain ⟨target, -, heq⟩ := List.mem_map.mp h
  cases heq
  rfl

theorem forwarded_of_mem (hq : r.QueuesAsk) {msg msg' : ClipboardFile} {targets : List String}
    (h : (peer, msg') ∈ (r.incoming source msg targets).forwards) :
    Forwarded r source msg peer msg' := by
  cases msg with
  | fileStream f =>
    have hframe : ∃ f', msg' = .fileStream f' := by
      simp only [incoming] at h
      rcases f.kind.asks_or with hf | hf | hf | ⟨n, hf⟩
      · rw [incomingStream_asks hf] at h
        split at h
        · cases h
        · split at h <;> cases List.mem_singleton.mp h <;> exact ⟨_, rfl⟩
      · rw [incomingStream_controls hf] at h
        split at h
        · cases h
        · cases List.mem_singleton.mp h
          exact ⟨_, rfl⟩
      · rw [incomingStream_answers hf] at h
        split at h
        · cases h
        · split_ifs at h
          · cases h
          · split at h
            · cases List.mem_singleton.mp h
              exact ⟨_, rfl⟩
            · cases h
      · rw [incomingStream_unknown hf] at h
        cases h
    obtain ⟨f', rfl⟩ := hframe
    exact .stream (streamForward_of_mem h)
  | formatList formatList =>
    simp only [incoming, incomingFormats] at h
    split_ifs at h
    · rw [msg_of_mem_broadcast h]
      exact .announced (.inr ⟨_, rfl⟩)
    · cases h
    · rw [msg_of_mem_broadcast h]
      exact .announced (.inr ⟨_, rfl⟩)
    · rw [msg_of_mem_broadcast h]
      exact .announced (.inr ⟨_, rfl⟩)
  | tryEmpty =>
    simp only [incoming] at h
    split_ifs at h
    · rw [msg_of_mem_broadcast h]
      exact .announced (.inl rfl)
    · cases h
  | formatDataRequest id =>
    simp only [incoming] at h
    split at h
    · cases h
    · rename_i owner howner
      rw [Option.filter_eq_some_iff] at howner
      obtain ⟨msg, hmsg, heq⟩ := List.mem_map.mp h
      rw [Option.mem_toList] at hmsg
      cases heq
      rw [eq_of_enqueueMetadata hmsg]
      exact .dataAsked howner.1
  | formatDataResponse flags data =>
    simp only [incoming, incomingResponse] at h
    split at h
    · cases h
    · rename_i dest pending queue hqueue
      have hnext : (peer, msg') ∈ nextRequest source queue →
          Forwarded r source (.formatDataResponse flags data) peer msg' := by
        rcases queue with _ | ⟨⟨dest', next⟩, queue⟩
        · exact fun hmem => absurd hmem List.not_mem_nil
        · intro hmem
          obtain ⟨id, hid⟩ := hq source (dest', next) (by rw [hqueue]; simp)
          cases List.mem_singleton.mp hmem
          rw [show msg' = .formatDataRequest id from hid]
          exact .dataNext
      cases dest with
      | peer peer =>
        rcases List.mem_append.mp h with h | h
        · exact hnext h
        · cases List.mem_singleton.mp h
          exact .dataAnswered hqueue
      | «local» => exact hnext h
  | fileContentsRequest streamId listIndex dwFlags low high cb haveId clipId =>
    simp only [incoming] at h
    split at h
    · cases h
    · rename_i owner howner
      rw [Option.filter_eq_some_iff] at howner
      split_ifs at h
      · cases h
      · cases List.mem_singleton.mp h
        exact .contentsAsked howner.1
  | fileContentsResponse flags streamId data =>
    simp only [incoming] at h
    split at h
    · cases h
    · rename_i dest original hget
      cases dest with
      | peer peer =>
        cases List.mem_singleton.mp h
        exact .contentsAnswered hget
      | «local» => cases h
  | other n => cases h

/-- Frames are forwarded for frames only. -/
theorem stream_forwarded (hq : r.QueuesAsk) {msg : ClipboardFile} {targets : List String}
    (h : (peer, .fileStream f') ∈ (r.incoming source msg targets).forwards) :
    ∃ f, msg = .fileStream f ∧ StreamForward r source f peer f' := by
  generalize hmsg' : ClipboardFile.fileStream f' = msg' at h
  cases forwarded_of_mem hq h with
  | announced hmsg =>
    subst hmsg'
    rcases hmsg with hmsg | ⟨formats, hmsg⟩ <;> cases hmsg
  | stream hforward =>
    cases hmsg'
    exact ⟨_, rfl, hforward⟩
  | _ => cases hmsg'

/-- File contents are forwarded for a response with them. -/
theorem contents_forwarded (hq : r.QueuesAsk) {msg : ClipboardFile} {targets : List String}
    {flags original : Int} {data : List UInt8}
    (h : (peer, .fileContentsResponse flags original data) ∈
      (r.incoming source msg targets).forwards) :
    ∃ id, msg = .fileContentsResponse flags id data ∧
      r.legacy.get (source, id) = some (.peer peer, original) := by
  generalize hmsg' : ClipboardFile.fileContentsResponse flags original data = msg' at h
  cases forwarded_of_mem hq h with
  | announced hmsg =>
    subst hmsg'
    rcases hmsg with hmsg | ⟨formats, hmsg⟩ <;> cases hmsg
  | contentsAnswered hget =>
    cases hmsg'
    exact ⟨_, rfl, hget⟩
  | _ => cases hmsg'

end FileRoute

end MDesk.Clipboard
