import MDesk.Clipboard.RouteStreams

/-!
# Whom an answer goes to

Every answer that the route passes on to a peer answers a request of that peer which is
still open: it was passed on to the peer the answer comes from, under the id the answer
bears, and nothing has ended it since.
-/

namespace MDesk.Clipboard

open MDesk.Core

namespace FileRoute

/-- A call ends a streamed request: its owner completes it, its requester cancels it, or
one of them leaves. -/
def Ends (owner : String) (id : Nat) (peer : String) (original generation : Nat) :
    RouteEvent → Prop
  | .incoming source (.fileStream f) _ =>
    (source = owner ∧ f.kind.answers = true ∧ f.kind ≠ .block ∧ f.generation = generation ∧
        f.requestId = id) ∨
      source = peer ∧ f.kind = .cancel ∧ f.generation = generation ∧ f.requestId = original
  | .disconnect left => left = owner ∨ left = peer
  | _ => False

/-- A peer asked for a stream, the owner was asked under an id, and nothing ended this. -/
def OpenStream (pre : List RouteEvent) (owner : String) (id : Nat) (peer : String)
    (original generation : Nat) : Prop :=
  ∃ before f targets since, pre = before ++ .incoming peer (.fileStream f) targets :: since ∧
    f.kind.asks = true ∧ f.generation = generation ∧ f.requestId = original ∧
    (owner, .fileStream { f with requestId := id }) ∈
      ((run step {} before).incoming peer (.fileStream f) targets).forwards ∧
    ∀ e ∈ since, ¬ Ends owner id peer original generation e

/-- A call ends a request for file contents: its owner answers it, or one of the two
leaves. -/
def EndsContents (owner : String) (id : Int) (peer : String) : RouteEvent → Prop
  | .incoming source (.fileContentsResponse _ streamId _) _ => source = owner ∧ streamId = id
  | .disconnect left => left = owner ∨ left = peer
  | _ => False

/-- A peer asked for file contents, the owner was asked under an id, and nothing ended
this. -/
def OpenContents (pre : List RouteEvent) (owner : String) (id : Int) (peer : String)
    (original : Int) : Prop :=
  ∃ before listIndex dwFlags low high cb haveId clipId targets since,
    pre = before ++ .incoming peer (.fileContentsRequest original listIndex dwFlags low high cb
      haveId clipId) targets :: since ∧
    (owner, .fileContentsRequest id listIndex dwFlags low high cb haveId clipId) ∈
      ((run step {} before).incoming peer (.fileContentsRequest original listIndex dwFlags low
        high cb haveId clipId) targets).forwards ∧
    ∀ e ∈ since, ¬ EndsContents owner id peer e

/-- The condition on a call: a peer cancels a stream only while the route knows a single
live request of it with this id and generation, the one it would cancel. -/
def CancelsOnly (r : FileRoute) : RouteEvent → Prop
  | .incoming source (.fileStream f) _ =>
    f.kind = .cancel → ∀ owner id,
      r.requests.get (owner, id) = some (.peer source, f.requestId, f.generation) →
        r.reverse.get (.peer source, f.generation, f.requestId) = some (owner, id)
  | _ => True

variable {pre : List RouteEvent} {r : FileRoute} {owner peer : String} {id original : Nat}
  {generation : Nat} {e : RouteEvent}

theorem OpenStream.append (h : OpenStream pre owner id peer original generation)
    (he : ¬ Ends owner id peer original generation e) :
    OpenStream (pre ++ [e]) owner id peer original generation := by
  obtain ⟨before, f, targets, since, rfl, hf, hgen, horiginal, hforward, hsince⟩ := h
  refine ⟨before, f, targets, since ++ [e], by simp, hf, hgen, horiginal, hforward, ?_⟩
  exact List.forall_mem_append.mpr ⟨hsince, List.forall_mem_singleton.mpr he⟩

theorem OpenContents.append {id original : Int} (h : OpenContents pre owner id peer original)
    (he : ¬ EndsContents owner id peer e) : OpenContents (pre ++ [e]) owner id peer original := by
  obtain ⟨before, listIndex, dwFlags, low, high, cb, haveId, clipId, targets, since, rfl, hforward,
    hsince⟩ := h
  refine ⟨before, listIndex, dwFlags, low, high, cb, haveId, clipId, targets, since ++ [e],
    by simp, hforward, ?_⟩
  exact List.forall_mem_append.mpr ⟨hsince, List.forall_mem_singleton.mpr he⟩

/-- A frame of a peer: a request behind it is an older one that the frame does not end, or
the one it makes. -/
theorem requests_incomingStream {source : String} {f : Frame} {targets : List String}
    (hcancel : CancelsOnly r (.incoming source (.fileStream f) targets))
    (h : (r.incomingStream source f).route.requests.get (owner, id) =
      some (.peer peer, original, generation)) :
    (r.requests.get (owner, id) = some (.peer peer, original, generation) ∧
        ¬ Ends owner id peer original generation (.incoming source (.fileStream f) targets)) ∨
      source = peer ∧ f.kind.asks = true ∧ f.generation = generation ∧ f.requestId = original ∧
        (owner, .fileStream { f with requestId := id }) ∈ (r.incomingStream source f).forwards := by
  rcases f.kind.asks_or with hf | hf | hf | ⟨n, hf⟩
  · have hnot : ¬ Ends owner id peer original generation
        (.incoming source (.fileStream f) targets) := by
      rintro (⟨-, hanswers, -⟩ | ⟨-, hkind, -⟩)
      · rw [FrameKind.asks_of_answers hanswers] at hf
        cases hf
      · rw [hkind] at hf
        cases hf
    rw [incomingStream_asks hf] at h ⊢
    split at h
    · exact .inl ⟨h, hnot⟩
    · rename_i owner' hgen
      split at h
      · rename_i f' r' hreq
        unfold request at hreq
        split_ifs at hreq
        cases hreq
        rw [Table.get_insert] at h
        split_ifs at h with hkey
        · cases hkey
          cases h
          exact .inr ⟨rfl, hf, rfl, rfl, List.mem_singleton.mpr rfl⟩
        · exact .inl ⟨h, hnot⟩
      · exact .inl ⟨h, hnot⟩
  · left
    have hanswers : f.kind.answers = false := by
      cases hk : f.kind <;> rw [hk] at hf <;> first | rfl | cases hf
    rw [incomingStream_controls hf] at h
    split at h
    · rename_i hctl
      refine ⟨h, ?_⟩
      rintro (⟨-, hans, -⟩ | ⟨rfl, hkind, rfl, rfl⟩)
      · rw [hanswers] at hans
        cases hans
      · unfold control at hctl
        rw [hcancel hkind owner id h] at hctl
        cases hctl
    · rename_i owner' f' r' hctl
      unfold control at hctl
      split at hctl
      · cases hctl
      · rename_i id' hget
        cases hctl
        split_ifs at h with hkind
        · dsimp only at h
          rw [Table.get_remove] at h
          split_ifs at h with hkey
          refine ⟨h, ?_⟩
          rintro (⟨-, hans, -⟩ | ⟨rfl, -, rfl, rfl⟩)
          · rw [hanswers] at hans
            cases hans
          · -- the canceled request is the one that was taken out
            rw [hcancel hkind owner id h] at hget
            exact hkey (Option.some.inj hget)
        · refine ⟨h, ?_⟩
          rintro (⟨-, hans, -⟩ | ⟨-, hcancels, -⟩)
          · rw [hanswers] at hans
            cases hans
          · exact hkind hcancels
  · left
    have hkind : f.kind ≠ .cancel := by
      intro hk
      rw [hk] at hf
      cases hf
    rw [incomingStream_answers hf] at h
    split at h
    · rename_i hnone
      refine ⟨h, ?_⟩
      rintro (⟨rfl, -, -, -, rfl⟩ | ⟨-, hcancels, -⟩)
      · rw [hnone] at h
        cases h
      · exact hkind hcancels
    · rename_i dest original' generation' hget
      split_ifs at h with hgen
      · refine ⟨h, ?_⟩
        rintro (⟨rfl, -, -, rfl, rfl⟩ | ⟨-, hcancels, -⟩)
        · rw [hget] at h
          cases h
          exact hgen rfl
        · exact hkind hcancels
      · have hafter : (r.answered source f dest original' generation').requests.get (owner, id) =
            some (.peer peer, original, generation) := by
          cases dest <;> exact h
        unfold answered at hafter
        split_ifs at hafter with hblock
        · dsimp only at hafter
          rw [Table.get_remove] at hafter
          split_ifs at hafter with hkey
          refine ⟨hafter, ?_⟩
          rintro (⟨rfl, -, -, -, rfl⟩ | ⟨-, hcancels, -⟩)
          · exact hkey rfl
          · exact hkind hcancels
        · rw [not_not] at hblock
          refine ⟨hafter, ?_⟩
          rintro (⟨-, -, hnot, -⟩ | ⟨-, hcancels, -⟩)
          · exact hnot hblock
          · exact hkind hcancels
  · rw [incomingStream_unknown hf] at h
    refine .inl ⟨h, ?_⟩
    rintro (⟨-, hanswers, -⟩ | ⟨-, hcancels, -⟩)
    · rw [hf] at hanswers
      cases hanswers
    · rw [hf] at hcancels
      cases hcancels

/-- A request of a peer behind a call: an older one that the call does not end, or the one
that the call passes on. -/
theorem requests_step (hcancel : CancelsOnly r e)
    (h : (r.step e).requests.get (owner, id) = some (.peer peer, original, generation)) :
    (r.requests.get (owner, id) = some (.peer peer, original, generation) ∧
        ¬ Ends owner id peer original generation e) ∨
      ∃ f targets, e = .incoming peer (.fileStream f) targets ∧ f.kind.asks = true ∧
        f.generation = generation ∧ f.requestId = original ∧
        (owner, .fileStream { f with requestId := id }) ∈
          (r.incoming peer (.fileStream f) targets).forwards := by
  cases e with
  | outgoing peer' msg =>
    refine .inl ⟨?_, not_false⟩
    by_cases hmsg : ∃ f, msg = .fileStream f
    · obtain ⟨f, rfl⟩ := hmsg
      rw [FileRoute.step] at h
      by_cases hasks : f.kind.asks = true
      · rw [outgoing_asks hasks] at h
        split at h
        · exact h
        · rename_i hreq
          unfold request at hreq
          split_ifs at hreq
          cases hreq
          rw [Table.get_insert] at h
          split_ifs at h
          · cases h
          · exact h
      · by_cases hcontrols : f.kind.controls = true
        · rw [outgoing_controls hcontrols] at h
          split at h
          · exact h
          · rename_i hctl
            unfold control at hctl
            split at hctl
            · cases hctl
            · cases hctl
              split_ifs at h
              · dsimp only at h
                rw [Table.get_remove] at h
                split_ifs at h
                exact h
              · exact h
        · rwa [outgoing_passes (eq_false_of_ne_true hasks) (eq_false_of_ne_true hcontrols)] at h
    · rw [not_exists] at hmsg
      rwa [FileRoute.step, (outgoing_tables hmsg peer').1] at h
  | incoming source msg targets =>
    by_cases hmsg : ∃ f, msg = .fileStream f
    · obtain ⟨f, rfl⟩ := hmsg
      rcases requests_incomingStream hcancel h with hold | ⟨rfl, hnew⟩
      · exact .inl hold
      · exact .inr ⟨f, targets, rfl, hnew⟩
    · rw [not_exists] at hmsg
      rw [FileRoute.step, (incoming_tables hmsg source targets).1] at h
      refine .inl ⟨h, ?_⟩
      cases msg with
      | fileStream f => exact absurd rfl (hmsg f)
      | _ => exact not_false
  | disconnect left =>
    rw [FileRoute.step, disconnect, Table.get_retain_eq_some_iff] at h
    obtain ⟨hget, hkeep⟩ := h
    simp only [ne_eq, Destination.peer.injEq, decide_eq_true_eq] at hkeep
    refine .inl ⟨hget, ?_⟩
    rintro (rfl | rfl)
    · exact hkeep.1 rfl
    · exact hkeep.2 rfl

/-- A message for a peer enters no request for file contents of another peer. -/
theorem legacy_outgoing {id original : Int} {peer' : String} {msg : ClipboardFile}
    (h : (r.outgoing peer' msg).2.legacy.get (owner, id) = some (.peer peer, original)) :
    r.legacy.get (owner, id) = some (.peer peer, original) := by
  cases msg with
  | fileStream f => rwa [outgoing_stream_rest.legacy] at h
  | formatDataRequest format =>
    simp only [outgoing, FileRoute.enqueueMetadata] at h
    split_ifs at h <;> exact h
  | fileContentsRequest streamId listIndex dwFlags low high cb haveId clipId =>
    simp only [outgoing] at h
    split_ifs at h
    · exact h
    · dsimp only at h
      rw [Table.get_insert] at h
      split_ifs at h
      · cases h
      · exact h
  | _ => exact h

/-- A request for file contents behind a call: an older one that the call does not end, or
the one that the call passes on. -/
theorem legacy_step {id original : Int}
    (h : (r.step e).legacy.get (owner, id) = some (.peer peer, original)) :
    (r.legacy.get (owner, id) = some (.peer peer, original) ∧ ¬ EndsContents owner id peer e) ∨
      ∃ listIndex dwFlags low high cb haveId clipId targets,
        e = .incoming peer (.fileContentsRequest original listIndex dwFlags low high cb haveId
          clipId) targets ∧
        (owner, .fileContentsRequest id listIndex dwFlags low high cb haveId clipId) ∈
          (r.incoming peer (.fileContentsRequest original listIndex dwFlags low high cb haveId
            clipId) targets).forwards := by
  cases e with
  | outgoing peer' msg => exact .inl ⟨legacy_outgoing h, not_false⟩
  | incoming source msg targets =>
    rw [FileRoute.step] at h
    cases msg with
    | fileStream f =>
      rw [incoming, incomingStream_rest.legacy] at h
      exact .inl ⟨h, not_false⟩
    | formatList formatList =>
      simp only [incoming, incomingFormats] at h
      split_ifs at h <;> exact .inl ⟨h, not_false⟩
    | tryEmpty =>
      simp only [incoming] at h
      split_ifs at h <;> exact .inl ⟨h, not_false⟩
    | formatDataRequest format =>
      simp only [incoming, FileRoute.enqueueMetadata] at h
      split at h
      · exact .inl ⟨h, not_false⟩
      · split_ifs at h <;> exact .inl ⟨h, not_false⟩
    | formatDataResponse flags data =>
      simp only [incoming, incomingResponse] at h
      split at h
      · exact .inl ⟨h, not_false⟩
      · split at h <;> exact .inl ⟨h, not_false⟩
    | fileContentsRequest streamId listIndex dwFlags low high cb haveId clipId =>
      simp only [incoming] at h ⊢
      split at h
      · exact .inl ⟨h, not_false⟩
      · rename_i owner' howner
        split_ifs at h with hlen
        · exact .inl ⟨h, not_false⟩
        · dsimp only at h
          rw [Table.get_insert] at h
          split_ifs at h with hkey
          · cases hkey
            cases h
            refine .inr ⟨listIndex, dwFlags, low, high, cb, haveId, clipId, targets, rfl, ?_⟩
            simp only [howner]
            rw [if_neg hlen]
            exact List.mem_singleton.mpr rfl
          · exact .inl ⟨h, not_false⟩
    | fileContentsResponse flags streamId data =>
      simp only [incoming] at h
      split at h
      · rename_i hnone
        refine .inl ⟨h, ?_⟩
        rintro ⟨rfl, rfl⟩
        rw [hnone] at h
        cases h
      · rename_i dest original' hget
        have hafter : (r.legacy.remove (source, streamId)).get (owner, id) =
            some (.peer peer, original) := by
          cases dest <;> exact h
        rw [Table.get_remove] at hafter
        split_ifs at hafter with hkey
        refine .inl ⟨hafter, ?_⟩
        rintro ⟨rfl, rfl⟩
        exact hkey rfl
    | other n => exact .inl ⟨h, not_false⟩
  | disconnect left =>
    rw [FileRoute.step, disconnect, Table.get_retain_eq_some_iff] at h
    obtain ⟨hget, hkeep⟩ := h
    simp only [ne_eq, Destination.peer.injEq, decide_eq_true_eq] at hkeep
    refine .inl ⟨hget, ?_⟩
    rintro (rfl | rfl)
    · exact hkeep.1 rfl
    · exact hkeep.2 rfl

/-- What the tables of a route know about the calls so far. -/
structure Isolated (pre : List RouteEvent) (r : FileRoute) : Prop where
  queues : r.QueuesAsk
  streams : ∀ owner id peer original generation,
    r.requests.get (owner, id) = some (.peer peer, original, generation) →
      OpenStream pre owner id peer original generation
  contents : ∀ owner id peer original, r.legacy.get (owner, id) = some (.peer peer, original) →
    OpenContents pre owner id peer original

theorem isolated_step (h : Isolated pre (run step {} pre))
    (hcancel : CancelsOnly (run step {} pre) e) :
    Isolated (pre ++ [e]) (step (run step {} pre) e) := by
  refine ⟨h.queues.step e, ?_, ?_⟩
  · intro owner id peer original generation hget
    rcases requests_step hcancel hget with ⟨hold, hends⟩ |
      ⟨f, targets, rfl, hasks, hgen, horig, hnew⟩
    · exact (h.streams owner id peer original generation hold).append hends
    · exact ⟨pre, f, targets, [], rfl, hasks, hgen, horig, hnew, List.forall_mem_nil _⟩
  · intro owner id peer original hget
    rcases legacy_step hget with ⟨hold, hends⟩ |
      ⟨listIndex, dwFlags, low, high, cb, haveId, clipId, targets, rfl, hnew⟩
    · exact (h.contents owner id peer original hold).append hends
    · exact ⟨pre, listIndex, dwFlags, low, high, cb, haveId, clipId, targets, [], rfl, hnew,
        List.forall_mem_nil _⟩

theorem isolated_run {es : List RouteEvent} (h : Allowed step CancelsOnly {} es) :
    Isolated es (run step {} es) := by
  apply run_keeps_past (fun _ _ hpre he => isolated_step hpre he) _ h
  refine ⟨?_, ?_, ?_⟩
  · intro owner pending hmem
    cases hmem
  · intro owner id peer original generation hget
    cases hget
  · intro owner id peer original hget
    cases hget

/-- In a run whose cancels meet the condition, every answer that the route passes on to a
peer answers an open request of that peer, to the peer the answer comes from. An error may
also tell the peer itself that its request was refused. -/
theorem answers_open {pre : List RouteEvent} {source : String} {msg : ClipboardFile}
    {targets : List String} {post : List RouteEvent}
    (h : Allowed step CancelsOnly {} (pre ++ .incoming source msg targets :: post)) :
    (∀ peer f', (peer, .fileStream f') ∈ ((run step {} pre).incoming source msg targets).forwards →
      f'.kind.answers = true →
      (∃ f, msg = .fileStream f ∧ f' = { f with requestId := f'.requestId } ∧
        OpenStream pre source f.requestId peer f'.requestId f'.generation) ∨
      ∃ f, msg = .fileStream f ∧ f.kind.asks = true ∧ peer = source ∧
        f' = { f with kind := .error }) ∧
    ∀ peer flags original data, (peer, .fileContentsResponse flags original data) ∈
        ((run step {} pre).incoming source msg targets).forwards →
      ∃ id, msg = .fileContentsResponse flags id data ∧
        OpenContents pre source id peer original := by
  have hisolated := isolated_run (allowed_append.mp h).1
  constructor
  · intro peer f' hmem hanswers
    obtain ⟨f, rfl, hforward⟩ := stream_forwarded hisolated.queues hmem
    cases hforward with
    | asked hf hgen hne hlen =>
      rw [FrameKind.asks_of_answers hanswers] at hf
      cases hf
    | refused hf hlen => exact .inr ⟨f, rfl, hf, rfl, rfl⟩
    | controlled hf hget =>
      rw [FrameKind.controls_of_answers hanswers] at hf
      cases hf
    | answered hf hget => exact .inl ⟨f, rfl, rfl, hisolated.streams _ _ _ _ _ hget⟩
  · intro peer flags original data hmem
    obtain ⟨id, rfl, hget⟩ := contents_forwarded hisolated.queues hmem
    exact ⟨id, rfl, hisolated.contents _ _ _ _ hget⟩

/-- One request, and a block for it. -/
theorem answers_open_one :
    let announce : RouteEvent :=
      .incoming "A" (.formatList [(0, "MDesk.FileStream.v1:0000000000000007")]) []
    let ask : RouteEvent := .incoming "B" (.fileStream {
      kind := .request, generation := 7, requestId := 5 }) []
    let answer : Frame := { kind := .block, generation := 7, requestId := 1 }
    Allowed step CancelsOnly {} ([announce, ask] ++ .incoming "A" (.fileStream answer) [] :: []) ∧
      ("B", .fileStream { answer with requestId := 5 }) ∈
        ((run step {} [announce, ask]).incoming "A" (.fileStream answer) []).forwards ∧
      OpenStream [announce, ask] "A" 1 "B" 5 7 := by
  intro announce ask answer
  have hallowed : Allowed step CancelsOnly {}
      ([announce, ask] ++ .incoming "A" (.fileStream answer) [] :: []) :=
    ⟨trivial, nofun, nofun, trivial⟩
  have hmem : ("B", .fileStream { answer with requestId := 5 }) ∈
      ((run step {} [announce, ask]).incoming "A" (.fileStream answer) []).forwards := by
    decide
  refine ⟨hallowed, hmem, ?_⟩
  rcases (answers_open hallowed).1 "B" _ hmem rfl with ⟨f, hf, -, hopen⟩ | ⟨f, hf, hasks, -⟩
  · cases hf
    exact hopen
  · cases hf
    cases hasks

/-- A block is passed on for a request that its peer has made twice and then canceled. -/
theorem answers_canceled :
    let announce : RouteEvent :=
      .incoming "A" (.formatList [(0, "MDesk.FileStream.v1:0000000000000007")]) []
    let ask : RouteEvent := .incoming "B" (.fileStream {
      kind := .request, generation := 7, requestId := 5 }) []
    let cancel : RouteEvent := .incoming "B" (.fileStream {
      kind := .cancel, generation := 7, requestId := 5 }) []
    let answer : Frame := { kind := .block, generation := 7, requestId := 1 }
    let pre := [announce, ask, ask, cancel]
    ("B", .fileStream { answer with requestId := 5 }) ∈
        ((run step {} pre).incoming "A" (.fileStream answer) []).forwards ∧
      ∀ id, ¬ OpenStream pre "A" id "B" 5 7 := by
  intro announce ask cancel answer pre
  refine ⟨by decide, ?_⟩
  rintro id ⟨before, f, targets, since, hpre, hasks, -, -, -, hsince⟩
  rcases List.eq_nil_or_concat since with rfl | ⟨since, e, rfl⟩
  · have hlast := congrArg List.getLast? hpre
    rw [List.getLast?_append_cons, List.getLast?_singleton] at hlast
    cases hlast
    cases hasks
  · have hlast := congrArg List.getLast? hpre
    rw [List.getLast?_append_cons, List.concat_eq_append, ← List.cons_append,
      List.getLast?_concat] at hlast
    cases hlast
    exact hsince cancel (by simp) (.inr ⟨rfl, rfl, rfl, rfl⟩)

end FileRoute

end MDesk.Clipboard
