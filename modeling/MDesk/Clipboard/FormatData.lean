import MDesk.Clipboard.RouteStreams
import Mathlib.Data.List.Pairwise

/-!
# The order of format data

Requests for format data carry no id. The abstract model is one line of tickets an
owner: a request takes a ticket, only the head of a line is sent to the owner, and its
answer goes to whoever holds the ticket. The queues of the route are these lines without
the numbers on the tickets.
-/

namespace MDesk.Clipboard

open MDesk.Core

/-- A request for format data, numbered by the call that made it. -/
structure Ticket where
  serial : Nat
  dest : Destination
  format : Int
  deriving DecidableEq, Repr

/-- The entry of a route's queue for a ticket. -/
def Ticket.pending (t : Ticket) : Pending := (t.dest, .formatDataRequest t.format)

/-- The tickets of one requester. -/
def ticketsOf (dest : Destination) (line : List Ticket) : List Ticket :=
  line.filter fun t => t.dest = dest

/-- A route with the lines of its owners. For an owner and a requester, `asked` are the
tickets that stood in line since the latest disconnect of either, and `served` those of
them that were answered. `sent` are the formats that were asked of an owner since it last
came, and `got` is the number of its answers. -/
structure Lines where
  route : FileRoute := {}
  calls : Nat := 0
  line : String → List Ticket := fun _ => []
  asked : String → Destination → List Ticket := fun _ _ => []
  served : String → Destination → List Ticket := fun _ _ => []
  sent : String → List Int := fun _ => []
  got : String → Nat := fun _ => 0

namespace Lines

/-- The format a message asks for. -/
def askedFormat : ClipboardFile → Option Int
  | .formatDataRequest format => some format
  | _ => none

/-- The messages a call sends to a peer. -/
def sentTo (r : FileRoute) (e : RouteEvent) (owner : String) : List ClipboardFile :=
  match e with
  | .outgoing peer msg => if peer = owner then (r.outgoing peer msg).1.toList else []
  | .incoming source msg targets =>
    ((r.incoming source msg targets).forwards.filter fun forward => forward.1 = owner).map Prod.snd
  | .disconnect _ => []

/-- The formats a call asks an owner for. -/
def asksFor (r : FileRoute) (e : RouteEvent) (owner : String) : List Int :=
  (sentTo r e owner).filterMap askedFormat

/-- A line without the waiting tickets of a peer; its head is in flight. -/
def dropWaiting (peer : String) : List Ticket → List Ticket
  | [] => []
  | head :: line => head :: line.filter fun t => t.dest ≠ .peer peer

/-- Stand in a line, unless it is full. -/
def join (line : String → List Ticket) (owner : String) (t : Ticket) : String → List Ticket :=
  if (line owner).length < 32 then Function.update line owner (line owner ++ [t]) else line

/-- The lines behind a call. -/
def nextLine (s : Lines) : RouteEvent → String → List Ticket
  | .outgoing peer (.formatDataRequest format) => join s.line peer ⟨s.calls, .local, format⟩
  | .incoming source (.formatDataRequest format) _ =>
    match s.route.owner.filter (· ≠ source) with
    | none => s.line
    | some owner => join s.line owner ⟨s.calls, .peer source, format⟩
  | .incoming source (.formatDataResponse _ _) _ =>
    Function.update s.line source (s.line source).tail
  | .disconnect peer => fun owner => if owner = peer then [] else dropWaiting peer (s.line owner)
  | _ => s.line

/-- The tickets a request adds to a line. -/
def added (s : Lines) (e : RouteEvent) (owner : String) : List Ticket :=
  (s.nextLine e owner).drop (s.line owner).length

/-- The tickets behind a call that stood in line. A disconnect of the requester withdraws
those that wait, and leaves the one in flight. -/
def nextAsked (s : Lines) (e : RouteEvent) (owner : String) (dest : Destination) : List Ticket :=
  match e with
  | .disconnect peer =>
    if owner = peer then []
    else if dest = .peer peer then ticketsOf dest (s.line owner).head?.toList
    else s.asked owner dest
  | _ => s.asked owner dest ++ ticketsOf dest (s.added e owner)

/-- The tickets behind a call that were answered. -/
def nextServed (s : Lines) (e : RouteEvent) (owner : String) (dest : Destination) : List Ticket :=
  match e with
  | .incoming source (.formatDataResponse _ _) _ =>
    if owner = source then s.served owner dest ++ ticketsOf dest (s.line owner).head?.toList
    else s.served owner dest
  | .disconnect peer => if owner = peer ∨ dest = .peer peer then [] else s.served owner dest
  | _ => s.served owner dest

/-- One call. -/
def step (s : Lines) (e : RouteEvent) : Lines where
  route := s.route.step e
  calls := s.calls + 1
  line := s.nextLine e
  asked := s.nextAsked e
  served := s.nextServed e
  sent := fun owner => if e = .disconnect owner then [] else s.sent owner ++ asksFor s.route e owner
  got :=
    match e with
    | .incoming source (.formatDataResponse _ _) _ =>
      Function.update s.got source (s.got source + 1)
    | .disconnect peer => Function.update s.got peer 0
    | _ => s.got

/-- An owner answers the requests it was sent: its next answer has a request to answer. -/
def Honest (s : Lines) : RouteEvent → Prop
  | .incoming source (.formatDataResponse _ _) _ => s.got source < (s.sent source).length
  | _ => True

/-- A ticket of a line: its request was made for the owner of the line, which has stayed
since. -/
def Issued (pre : List RouteEvent) (owner : String) (t : Ticket) : Prop :=
  (∀ e ∈ pre.drop (t.serial + 1), e ≠ .disconnect owner) ∧
    match t.dest with
    | .local => pre[t.serial]? = some (.outgoing owner (.formatDataRequest t.format))
    | .peer peer => (run FileRoute.step {} (pre.take t.serial)).owner = some owner ∧
        ∃ targets, pre[t.serial]? = some (.incoming peer (.formatDataRequest t.format) targets)

/-- The lines are the queues of the route, only their heads are in flight, and a requester
is answered in the order in which it asked. -/
structure Inv (pre : List RouteEvent) (s : Lines) : Prop where
  route : s.route = run FileRoute.step {} pre
  calls : s.calls = pre.length
  queue : ∀ owner, s.route.queue owner = (s.line owner).map Ticket.pending
  gotLe : ∀ owner, s.got owner ≤ (s.sent owner).length
  inFlight : ∀ owner, (s.sent owner).drop (s.got owner) =
    (s.line owner).head?.toList.map Ticket.format
  issued : ∀ owner, ∀ t ∈ s.line owner, Issued pre owner t
  kept : ∀ owner dest, s.served owner dest ++ ticketsOf dest (s.line owner) = s.asked owner dest

variable {pre : List RouteEvent} {s : Lines} {r : FileRoute} {e : RouteEvent} {owner : String}

theorem asksFor_eq_nil (h : ∀ format, .formatDataRequest format ∉ sentTo r e owner) :
    asksFor r e owner = [] := by
  rw [asksFor, List.filterMap_eq_nil_iff]
  intro msg hmsg
  cases msg with
  | formatDataRequest format => exact absurd hmsg (h format)
  | _ => rfl

/-- A local request is sent when nobody stands in line. -/
theorem asksFor_outgoing (r : FileRoute) (peer : String) (format : Int) (owner : String) :
    asksFor r (.outgoing peer (.formatDataRequest format)) owner =
      if peer = owner ∧ r.queue peer = [] then [format] else [] := by
  unfold asksFor sentTo
  dsimp only [FileRoute.outgoing]
  rw [FileRoute.enqueueMetadata_fst]
  by_cases hpeer : peer = owner
  · by_cases hq : r.queue peer = []
    · rw [if_pos hpeer, if_pos hq, if_pos ⟨hpeer, hq⟩]
      rfl
    · rw [if_pos hpeer, if_neg hq, if_neg fun h => hq h.2]
      rfl
  · rw [if_neg hpeer, if_neg fun h => hpeer h.1]
    rfl

/-- A request of a peer is sent to the owner when nobody stands in line. -/
theorem asksFor_incoming (r : FileRoute) (source : String) (format : Int) (targets : List String)
    (owner : String) :
    asksFor r (.incoming source (.formatDataRequest format) targets) owner =
      if r.owner.filter (· ≠ source) = some owner ∧ r.queue owner = [] then [format] else [] := by
  unfold asksFor sentTo
  simp only [FileRoute.incoming]
  cases howner : r.owner.filter (· ≠ source) with
  | none => rfl
  | some owner' =>
    dsimp only
    rw [FileRoute.enqueueMetadata_fst]
    by_cases hq : r.queue owner' = []
    · rw [if_pos hq]
      by_cases heq : owner' = owner
      · rw [if_pos ⟨congrArg some heq, heq ▸ hq⟩]
        simp [heq, askedFormat]
      · rw [if_neg fun h => heq (Option.some.inj h.1)]
        simp [heq]
    · rw [if_neg hq, if_neg]
      · rfl
      · rintro ⟨heq, hq'⟩
        cases heq
        exact hq hq'

/-- An answer makes the next request in line be sent. -/
theorem asksFor_response (h : ∀ owner, r.queue owner = (s.line owner).map Ticket.pending)
    (source : String) (flags : Int) (data : List UInt8) (targets : List String) (owner : String) :
    asksFor r (.incoming source (.formatDataResponse flags data) targets) owner =
      if source = owner then (s.line owner).tail.head?.toList.map Ticket.format else [] := by
  unfold asksFor sentTo
  simp only [FileRoute.incoming, FileRoute.incomingResponse]
  have hq := h source
  cases hline : s.line source with
  | nil =>
    rw [hline] at hq
    rw [hq]
    split_ifs with hs
    · subst hs
      rw [hline]
      rfl
    · rfl
  | cons head line =>
    rw [hline, List.map_cons] at hq
    rw [hq]
    have hnext : FileRoute.nextRequest source (line.map Ticket.pending) =
        line.head?.toList.map fun t => (source, .formatDataRequest t.format) := by
      cases line <;> rfl
    have hasked : (((FileRoute.nextRequest source (line.map Ticket.pending)).filter
        fun forward => forward.1 = owner).map Prod.snd).filterMap askedFormat =
          if source = owner then line.head?.toList.map Ticket.format else [] := by
      rw [hnext]
      by_cases hs : source = owner
      · cases line <;> simp [hs, askedFormat]
      · cases line <;> simp [hs]
    have hline' : (if source = owner then (s.line owner).tail.head?.toList.map Ticket.format
        else []) = if source = owner then line.head?.toList.map Ticket.format else [] := by
      split_ifs with hs
      · rw [← hs, hline, List.tail_cons]
      · rfl
    rw [hline', ← hasked]
    dsimp only [Ticket.pending]
    cases head.dest with
    | «local» => rfl
    | peer p =>
      rw [List.filter_append, List.map_append, List.filterMap_append]
      by_cases hp : p = owner <;> simp [hp, askedFormat]

/-- Other calls ask for nothing. -/
theorem asksFor_other (hq : r.QueuesAsk) (he : e.queues = false) : asksFor r e owner = [] := by
  apply asksFor_eq_nil
  intro format hmem
  cases e with
  | outgoing peer msg =>
    dsimp only [sentTo] at hmem
    split_ifs at hmem
    · rw [Option.mem_toList] at hmem
      cases msg with
      | formatDataRequest _ => cases he
      | fileStream f =>
        by_cases hasks : f.kind.asks = true
        · rw [FileRoute.outgoing_asks hasks] at hmem
          split at hmem <;> cases hmem
        · by_cases hcontrols : f.kind.controls = true
          · rw [FileRoute.outgoing_controls hcontrols] at hmem
            split at hmem <;> cases hmem
          · rw [FileRoute.outgoing_passes (eq_false_of_ne_true hasks)
              (eq_false_of_ne_true hcontrols)] at hmem
            cases hmem
      | fileContentsRequest streamId listIndex dwFlags low high cb haveId clipId =>
        simp only [FileRoute.outgoing] at hmem
        split_ifs at hmem
        cases hmem
      | _ => cases hmem
    · cases hmem
  | incoming source msg targets =>
    obtain ⟨forward, hforward, hsnd⟩ := List.mem_map.mp hmem
    have hforward' : FileRoute.Forwarded r source msg forward.1 forward.2 :=
      FileRoute.forwarded_of_mem hq (List.mem_of_mem_filter hforward)
    rw [hsnd] at hforward'
    cases hforward' with
    | announced hmsg => rcases hmsg with hmsg | ⟨formats, hmsg⟩ <;> cases hmsg
    | dataAsked howner => cases he
    | dataNext => cases he
  | disconnect peer => cases hmem

theorem line_length (h : Inv pre s) (owner : String) :
    (s.line owner).length = (s.route.queue owner).length := by
  rw [h.queue, List.length_map]

theorem queue_eq_nil_iff (h : Inv pre s) : s.route.queue owner = [] ↔ s.line owner = [] := by
  rw [h.queue, List.map_eq_nil_iff]

theorem map_dropWaiting (peer : String) (line : List Ticket) :
    (dropWaiting peer line).map Ticket.pending =
      FileRoute.dropWaiting peer (line.map Ticket.pending) := by
  cases line with
  | nil => rfl
  | cons head line =>
    rw [dropWaiting, List.map_cons, List.map_cons, FileRoute.dropWaiting, List.filter_map]
    rfl

/-- Who stands in line joined it earlier, or joins it with the call. -/
theorem join_eq (line : String → List Ticket) (owner : String) (t : Ticket) (owner' : String) :
    join line owner t owner' =
      if owner' = owner ∧ (line owner).length < 32 then line owner ++ [t] else line owner' := by
  unfold join
  split_ifs with hlen hif hif
  · rw [hif.1, Function.update_self]
  · rw [Function.update_of_ne fun heq => hif ⟨heq, hlen⟩]
  · exact absurd hif.2 hlen
  · rfl

theorem nextLine_other (he : e.queues = false) : s.nextLine e = s.line := by
  cases e with
  | outgoing peer msg => cases msg <;> first | rfl | cases he
  | incoming source msg targets => cases msg <;> first | rfl | cases he
  | disconnect peer => cases he

/-- The queue behind a request is the line with the new ticket. -/
theorem queue_join (h : Inv pre s) {owner : String} (t : Ticket) (owner' : String) :
    (s.route.enqueueMetadata owner t.dest (.formatDataRequest t.format)).2.queue owner' =
      (join s.line owner t owner').map Ticket.pending := by
  rw [FileRoute.queue_enqueueMetadata, join_eq, line_length h]
  split_ifs
  · rw [List.map_append, h.queue]
    rfl
  · exact h.queue owner'

/-- The lines stay the queues of the route. -/
theorem queue_step (h : Inv pre s) (e : RouteEvent) (owner : String) :
    (s.route.step e).queue owner = (s.nextLine e owner).map Ticket.pending := by
  by_cases he : e.queues = true
  · cases e with
    | outgoing peer msg =>
      cases msg with
      | formatDataRequest format => exact queue_join h ⟨s.calls, .local, format⟩ owner
      | _ => cases he
    | incoming source msg targets =>
      cases msg with
      | formatDataRequest format =>
        simp only [FileRoute.step, FileRoute.incoming, nextLine]
        cases s.route.owner.filter (· ≠ source) with
        | none => exact h.queue owner
        | some owner' => exact queue_join h ⟨s.calls, .peer source, format⟩ owner
      | formatDataResponse flags data =>
        rw [FileRoute.step, FileRoute.incoming, FileRoute.queue_incomingResponse, nextLine,
          Function.update_apply]
        split_ifs
        · rw [List.map_tail, h.queue]
        · exact h.queue owner
      | _ => cases he
    | disconnect peer =>
      simp only [FileRoute.step, FileRoute.queue_disconnect, nextLine]
      split_ifs
      · rfl
      · rw [map_dropWaiting, h.queue]
  · rw [eq_comm, nextLine_other (eq_false_of_ne_true he),
      FileRoute.queue_step (eq_false_of_ne_true he), h.queue]

theorem prefix_join (s : Lines) (owner : String) (t : Ticket) (owner' : String) :
    s.line owner' <+: join s.line owner t owner' := by
  rw [join_eq]
  split_ifs with h
  · rw [h.1]
    exact List.prefix_append _ _
  · exact List.prefix_rfl

/-- What a ticket finds in front of it decides what is in flight. -/
theorem head_join (owner : String) (t : Ticket) (owner' : String) :
    (join s.line owner t owner').head?.toList.map Ticket.format =
      (s.line owner').head?.toList.map Ticket.format ++
        if owner = owner' ∧ s.line owner = [] then [t.format] else [] := by
  rw [join_eq]
  by_cases heq : owner' = owner
  · subst heq
    cases hline : s.line owner' with
    | nil => simp
    | cons head line =>
      have hne : ¬(owner' = owner' ∧ head :: line = []) := by simp
      rw [if_neg hne, List.append_nil]
      split_ifs <;> rfl
  · rw [if_neg fun h => heq h.1, if_neg fun h => heq h.1.symm, List.append_nil]

/-- A request puts what it sends into flight. -/
theorem inFlight_join (h : Inv pre s) {owner owner' : String} (t : Ticket) {asks : List Int}
    (hasks : asks = if owner = owner' ∧ s.route.queue owner = [] then [t.format] else []) :
    (s.sent owner' ++ asks).drop (s.got owner') =
      (join s.line owner t owner').head?.toList.map Ticket.format := by
  rw [List.drop_append_of_le_length (h.gotLe owner'), h.inFlight, head_join, hasks]
  simp only [queue_eq_nil_iff h]

/-- Behind a call exactly the head of each line is in flight. -/
theorem inFlight_step (h : Inv pre s) (hq : s.route.QueuesAsk) (hhonest : Honest s e)
    (owner : String) :
    (s.step e).got owner ≤ ((s.step e).sent owner).length ∧
      ((s.step e).sent owner).drop ((s.step e).got owner) =
        (s.nextLine e owner).head?.toList.map Ticket.format := by
  by_cases he : e.queues = true
  · cases e with
    | outgoing peer msg =>
      cases msg with
      | formatDataRequest format =>
        have hasks := asksFor_outgoing s.route peer format owner
        simp only [step, reduceCtorEq, if_false]
        refine ⟨(h.gotLe owner).trans (by rw [List.length_append]; omega), ?_⟩
        exact inFlight_join h ⟨s.calls, .local, format⟩ hasks
      | _ => cases he
    | incoming source msg targets =>
      cases msg with
      | formatDataRequest format =>
        have hasks := asksFor_incoming s.route source format targets owner
        simp only [step, reduceCtorEq, if_false]
        refine ⟨(h.gotLe owner).trans (by rw [List.length_append]; omega), ?_⟩
        simp only [nextLine]
        cases howner : s.route.owner.filter (· ≠ source) with
        | none =>
          rw [howner, if_neg fun h => nomatch h.1] at hasks
          rw [hasks, List.append_nil]
          exact h.inFlight owner
        | some owner' =>
          rw [howner] at hasks
          refine inFlight_join h ⟨s.calls, .peer source, format⟩ (hasks.trans ?_)
          by_cases heq : owner' = owner
          · subst heq
            simp only [true_and]
          · rw [if_neg fun h => heq (Option.some.inj h.1), if_neg fun h => heq h.1]
      | formatDataResponse flags data =>
        have hasks := asksFor_response h.queue source flags data targets owner
        simp only [step, reduceCtorEq, if_false, nextLine, Function.update_apply]
        by_cases hs : owner = source
        · subst hs
          have hlt : s.got owner < (s.sent owner).length := hhonest
          rw [if_pos rfl] at hasks
          rw [if_pos rfl, if_pos rfl, hasks]
          refine ⟨by rw [List.length_append]; omega, ?_⟩
          have hone : (s.sent owner).drop (s.got owner + 1) = [] := by
            rw [← List.drop_drop, List.drop_one, h.inFlight]
            cases (s.line owner).head? <;> rfl
          rw [List.drop_append_of_le_length hlt, hone, List.nil_append]
        · rw [if_neg fun heq => hs heq.symm] at hasks
          rw [if_neg hs, if_neg hs, hasks, List.append_nil]
          exact ⟨h.gotLe owner, h.inFlight owner⟩
      | _ => cases he
    | disconnect peer =>
      by_cases hp : peer = owner
      · subst hp
        simp only [step, if_true, nextLine, Function.update_self]
        exact ⟨Nat.zero_le _, rfl⟩
      · have hsent : (s.step (.disconnect peer)).sent owner = s.sent owner := by
          simp only [step]
          rw [if_neg fun heq => hp (RouteEvent.disconnect.inj heq)]
          exact List.append_nil _
        have hgot : (s.step (.disconnect peer)).got owner = s.got owner :=
          Function.update_of_ne (Ne.symm hp) _ _
        rw [hsent, hgot]
        refine ⟨h.gotLe owner, ?_⟩
        simp only [nextLine]
        rw [if_neg (Ne.symm hp), h.inFlight]
        cases s.line owner <;> rfl
  · have hother := eq_false_of_ne_true he
    have hgot : (s.step e).got owner = s.got owner := by
      cases e with
      | outgoing peer msg => rfl
      | incoming source msg targets => cases msg <;> first | rfl | cases hother
      | disconnect peer => cases hother
    have hsent : (s.step e).sent owner = s.sent owner := by
      have hne : e ≠ .disconnect owner := by
        rintro rfl
        cases hother
      simp only [step]
      rw [if_neg hne, asksFor_other hq hother, List.append_nil]
    rw [hgot, hsent, nextLine_other hother]
    exact ⟨h.gotLe owner, h.inFlight owner⟩

/-- A call that is no answer and no disconnect only adds to the lines. -/
theorem nextLine_added (s : Lines) (owner : String)
    (hresponse : ∀ source flags data targets,
      e ≠ .incoming source (.formatDataResponse flags data) targets)
    (hdisconnect : ∀ peer, e ≠ .disconnect peer) :
    s.nextLine e owner = s.line owner ++ s.added e owner := by
  have hprefix : s.line owner <+: s.nextLine e owner := by
    by_cases he : e.queues = true
    · cases e with
      | outgoing peer msg =>
        cases msg with
        | formatDataRequest format => exact prefix_join s peer _ owner
        | _ => cases he
      | incoming source msg targets =>
        cases msg with
        | formatDataRequest format =>
          simp only [nextLine]
          cases s.route.owner.filter (· ≠ source) with
          | none => exact List.prefix_rfl
          | some owner' => exact prefix_join s owner' _ owner
        | formatDataResponse flags data => exact absurd rfl (hresponse source flags data targets)
        | _ => cases he
      | disconnect peer => exact absurd rfl (hdisconnect peer)
    · have hsame : s.nextLine e owner = s.line owner :=
        congrFun (nextLine_other (eq_false_of_ne_true he)) owner
      exact ⟨[], by rw [hsame, List.append_nil]⟩
  obtain ⟨added, hadded⟩ := hprefix
  rw [Lines.added, ← hadded, List.drop_left]

@[simp] theorem ticketsOf_append (dest : Destination) (line line' : List Ticket) :
    ticketsOf dest (line ++ line') = ticketsOf dest line ++ ticketsOf dest line' :=
  List.filter_append line line'

theorem ticketsOf_head_append_tail (dest : Destination) (line : List Ticket) :
    ticketsOf dest line.head?.toList ++ ticketsOf dest line.tail = ticketsOf dest line := by
  cases line with
  | nil => rfl
  | cons head line => exact (ticketsOf_append dest [head] line).symm

/-- A disconnect takes no ticket from another requester. -/
theorem ticketsOf_dropWaiting {peer : String} {dest : Destination} (hne : dest ≠ .peer peer)
    (line : List Ticket) : ticketsOf dest (dropWaiting peer line) = ticketsOf dest line := by
  cases line with
  | nil => rfl
  | cons head line =>
    have hrest : ticketsOf dest (line.filter fun t => t.dest ≠ .peer peer) =
        ticketsOf dest line := by
      rw [ticketsOf, ticketsOf, List.filter_filter]
      apply List.filter_congr
      intro t _
      by_cases ht : t.dest = dest
      · simp [ht, hne]
      · simp [ht]
    rw [dropWaiting, ← List.singleton_append, ticketsOf_append, hrest, ← ticketsOf_append]
    rfl

/-- Of the requester itself only the ticket in flight is left. -/
theorem ticketsOf_dropWaiting_self (peer : String) (line : List Ticket) :
    ticketsOf (.peer peer) (dropWaiting peer line) = ticketsOf (.peer peer) line.head?.toList := by
  cases line with
  | nil => rfl
  | cons head line =>
    have hrest : ticketsOf (.peer peer) (line.filter fun t => t.dest ≠ .peer peer) = [] := by
      rw [ticketsOf, List.filter_filter, List.filter_eq_nil_iff]
      intro t _
      simp
    rw [dropWaiting, ← List.singleton_append, ticketsOf_append, hrest, List.append_nil]
    rfl

/-- What was asked was answered or still stands in line, behind a call as well. -/
theorem kept_step (h : Inv pre s) (e : RouteEvent) (owner : String) (dest : Destination) :
    s.nextServed e owner dest ++ ticketsOf dest (s.nextLine e owner) =
      s.nextAsked e owner dest := by
  have hkept := h.kept owner dest
  by_cases hresponse : ∃ source flags data targets,
      e = .incoming source (.formatDataResponse flags data) targets
  · obtain ⟨source, flags, data, targets, rfl⟩ := hresponse
    simp only [nextServed, nextAsked, added, nextLine, Function.update_apply]
    by_cases hs : owner = source
    · subst hs
      have hdrop : (s.line owner).tail.drop (s.line owner).length = [] := by
        apply List.drop_of_length_le
        rw [List.length_tail]
        omega
      rw [if_pos rfl, if_pos rfl, hdrop, List.append_assoc, ticketsOf_head_append_tail, hkept]
      exact (List.append_nil _).symm
    · rw [if_neg hs, if_neg hs, List.drop_length, hkept]
      exact (List.append_nil _).symm
  by_cases hdisconnect : ∃ peer, e = .disconnect peer
  · obtain ⟨peer, rfl⟩ := hdisconnect
    simp only [nextServed, nextAsked, nextLine]
    by_cases hp : owner = peer
    · rw [if_pos (.inl hp), if_pos hp, if_pos hp]
      rfl
    · rw [if_neg hp, if_neg hp]
      by_cases hd : dest = .peer peer
      · rw [if_pos (.inr hd), if_pos hd, hd, ticketsOf_dropWaiting_self, List.nil_append]
      · rw [if_neg fun hor => hor.elim hp hd, if_neg hd, ticketsOf_dropWaiting hd, hkept]
  have hline := s.nextLine_added owner (fun source flags data targets he =>
    hresponse ⟨source, flags, data, targets, he⟩) fun peer he => hdisconnect ⟨peer, he⟩
  have hserved : s.nextServed e owner dest = s.served owner dest := by
    unfold nextServed
    split
    · exact absurd ⟨_, _, _, _, rfl⟩ hresponse
    · exact absurd ⟨_, rfl⟩ hdisconnect
    · rfl
  have hasked : s.nextAsked e owner dest =
      s.asked owner dest ++ ticketsOf dest (s.added e owner) := by
    unfold nextAsked
    split
    · exact absurd ⟨_, rfl⟩ hdisconnect
    · rfl
  rw [hserved, hasked, hline, ticketsOf_append, ← List.append_assoc, hkept]

/-- A ticket that joins a line with a call. -/
def Joins (s : Lines) (e : RouteEvent) (owner : String) (t : Ticket) : Prop :=
  t.serial = s.calls ∧
    match t.dest with
    | .local => e = .outgoing owner (.formatDataRequest t.format)
    | .peer peer => s.route.owner = some owner ∧
        ∃ targets, e = .incoming peer (.formatDataRequest t.format) targets

theorem mem_of_mem_dropWaiting {peer : String} {line : List Ticket} {t : Ticket}
    (h : t ∈ dropWaiting peer line) : t ∈ line := by
  cases line with
  | nil => exact h
  | cons head line =>
    rcases List.mem_cons.mp h with rfl | h
    · exact List.mem_cons_self
    · exact List.mem_cons_of_mem _ (List.mem_of_mem_filter h)

theorem mem_join {line : String → List Ticket} {owner owner' : String} {t t' : Ticket}
    (h : t' ∈ join line owner t owner') : t' ∈ line owner' ∨ owner' = owner ∧ t' = t := by
  rw [join_eq] at h
  split_ifs at h with hif
  · rcases List.mem_append.mp h with h | h
    · exact .inl (hif.1 ▸ h)
    · exact .inr ⟨hif.1, List.mem_singleton.mp h⟩
  · exact .inl h

/-- Who stands in a line behind a call stood there before, or joined it with the call. -/
theorem mem_nextLine {t : Ticket} (ht : t ∈ s.nextLine e owner) :
    t ∈ s.line owner ∧ e ≠ .disconnect owner ∨ s.Joins e owner t := by
  by_cases he : e.queues = true
  · cases e with
    | outgoing peer msg =>
      cases msg with
      | formatDataRequest format =>
        rcases mem_join ht with ht | ⟨rfl, rfl⟩
        · exact .inl ⟨ht, nofun⟩
        · exact .inr ⟨rfl, rfl⟩
      | _ => cases he
    | incoming source msg targets =>
      cases msg with
      | formatDataRequest format =>
        simp only [nextLine] at ht
        cases howner : s.route.owner.filter (· ≠ source) with
        | none =>
          rw [howner] at ht
          exact .inl ⟨ht, nofun⟩
        | some owner' =>
          rw [howner] at ht
          rcases mem_join ht with ht | ⟨rfl, rfl⟩
          · exact .inl ⟨ht, nofun⟩
          · exact .inr ⟨rfl, (Option.filter_eq_some_iff.mp howner).1, targets, rfl⟩
      | formatDataResponse flags data =>
        simp only [nextLine, Function.update_apply] at ht
        split_ifs at ht with hs
        · exact .inl ⟨hs ▸ List.mem_of_mem_tail ht, nofun⟩
        · exact .inl ⟨ht, nofun⟩
      | _ => cases he
    | disconnect peer =>
      simp only [nextLine] at ht
      split_ifs at ht with hp
      · cases ht
      · exact .inl ⟨mem_of_mem_dropWaiting ht, fun heq => hp (RouteEvent.disconnect.inj heq).symm⟩
  · rw [nextLine_other (eq_false_of_ne_true he)] at ht
    refine .inl ⟨ht, ?_⟩
    rintro rfl
    exact he rfl

/-- A ticket was made by an earlier call. -/
theorem Issued.serial_lt {t : Ticket} (h : Issued pre owner t) : t.serial < pre.length := by
  obtain ⟨-, h⟩ := h
  cases hd : t.dest with
  | «local» =>
    rw [hd] at h
    exact (List.getElem?_eq_some_iff.mp h).1
  | peer peer =>
    rw [hd] at h
    obtain ⟨-, targets, h⟩ := h
    exact (List.getElem?_eq_some_iff.mp h).1

/-- A ticket stays what it is while the owner stays. -/
theorem Issued.append {t : Ticket} (h : Issued pre owner t) (he : e ≠ .disconnect owner) :
    Issued (pre ++ [e]) owner t := by
  have hlt := h.serial_lt
  obtain ⟨hstays, hcall⟩ := h
  refine ⟨?_, ?_⟩
  · intro e' he'
    rw [List.drop_append_of_le_length hlt] at he'
    rcases List.mem_append.mp he' with he' | he'
    · exact hstays e' he'
    · rwa [List.mem_singleton.mp he']
  · rw [List.getElem?_append_left hlt, List.take_append_of_le_length hlt.le]
    exact hcall

/-- A ticket of a new request. -/
theorem Joins.issued {t : Ticket} (h : s.Joins e owner t)
    (hroute : s.route = run FileRoute.step {} pre) (hcalls : s.calls = pre.length) :
    Issued (pre ++ [e]) owner t := by
  obtain ⟨hserial, hcall⟩ := h
  rw [hcalls] at hserial
  refine ⟨?_, ?_⟩
  · rw [hserial, List.drop_of_length_le (by simp)]
    exact List.forall_mem_nil _
  · rw [hserial, List.getElem?_concat_length, List.take_left]
    split <;> rename_i hd <;> rw [hd] at hcall
    · rw [hcall]
    · obtain ⟨howner, targets, rfl⟩ := hcall
      exact ⟨hroute ▸ howner, targets, rfl⟩

/-- A call keeps the invariant. -/
theorem Inv.step (h : Inv pre s) (hq : s.route.QueuesAsk) (he : Honest s e) :
    Inv (pre ++ [e]) (s.step e) := by
  constructor
  · rw [run_append, ← h.route]
    rfl
  · rw [List.length_append, ← h.calls]
    rfl
  · exact queue_step h e
  · exact fun owner => (inFlight_step h hq he owner).1
  · exact fun owner => (inFlight_step h hq he owner).2
  · intro owner t ht
    rcases mem_nextLine ht with ⟨hold, hstays⟩ | hjoins
    · exact (h.issued owner t hold).append hstays
    · exact hjoins.issued h.route h.calls
  · exact kept_step h e

/-- Every honest run keeps it. -/
theorem inv_run {es : List RouteEvent} (h : Allowed Lines.step Honest {} es) :
    Inv es (run Lines.step {} es) ∧ (run Lines.step {} es).route.QueuesAsk := by
  apply run_keeps_past (Q := fun pre s => Inv pre s ∧ s.route.QueuesAsk) _ _ h
  · rintro pre e ⟨hinv, hq⟩ he
    exact ⟨hinv.step hq he, hq.step e⟩
  · refine ⟨?_, ?_⟩
    · constructor <;> intros <;> first | rfl | exact Nat.zero_le _ | contradiction
    · intro owner pending hmem
      cases hmem

/-- An answer that the route passes on to a peer answers the head of the line. -/
theorem head_of_answered (h : Inv pre s) {source peer : String} {msg : ClipboardFile}
    {queue : List Pending} (hqueue : s.route.queue source = (.peer peer, msg) :: queue) :
    ∃ t line, s.line source = t :: line ∧ t.dest = .peer peer := by
  have hline := h.queue source
  rw [hqueue] at hline
  cases hcons : s.line source with
  | nil =>
    rw [hcons] at hline
    cases hline
  | cons t line =>
    rw [hcons, List.map_cons] at hline
    exact ⟨t, line, rfl, congrArg Prod.fst (List.cons.inj hline).1.symm⟩

/-- In a run where owners answer what they were asked in order, an answer that the route
passes on to a peer answers a request of that peer which was made for the owner since it
came. The request is the only one in flight there, and the next in the order in which the
peer's requests came to stand in the owner's line. -/
theorem format_data_in_order {pre : List RouteEvent} {source : String} {msg : ClipboardFile}
    {targets : List String} {post : List RouteEvent} {peer : String} {flags : Int}
    {data : List UInt8}
    (h : Allowed Lines.step Honest {} (pre ++ .incoming source msg targets :: post))
    (hmem : (peer, .formatDataResponse flags data) ∈
      ((run FileRoute.step {} pre).incoming source msg targets).forwards) :
    msg = .formatDataResponse flags data ∧
      ∃ t, ((run Lines.step {} pre).line source).head? = some t ∧ t.dest = .peer peer ∧
        Issued pre source t ∧
        ((run Lines.step {} pre).sent source).drop ((run Lines.step {} pre).got source) =
          [t.format] ∧
        ((run Lines.step {} pre).asked source (.peer peer))[
          ((run Lines.step {} pre).served source (.peer peer)).length]? = some t := by
  obtain ⟨hinv, hq⟩ := inv_run (allowed_append.mp h).1
  rw [← hinv.route] at hmem
  cases FileRoute.forwarded_of_mem hq hmem with
  | announced hmsg => rcases hmsg with hmsg | ⟨formats, hmsg⟩ <;> cases hmsg
  | dataAnswered hqueue =>
    obtain ⟨t, line, hline, hdest⟩ := head_of_answered hinv hqueue
    have hflight := hinv.inFlight source
    have hkept := hinv.kept source (.peer peer)
    have hissued := hinv.issued source t
    rw [hline] at hflight hkept hissued
    refine ⟨rfl, t, congrArg List.head? hline, hdest, hissued List.mem_cons_self, hflight, ?_⟩
    rw [← hkept, List.getElem?_append_right (Nat.le_refl _), Nat.sub_self]
    simp [ticketsOf, hdest]

/-- Two peers ask, and the first of them gets its answer. -/
theorem format_data_in_order_one :
    let pre : List RouteEvent := [.incoming "A" (.formatList []) [],
      .incoming "D" (.formatDataRequest 1) [], .incoming "E" (.formatDataRequest 2) []]
    let answer : ClipboardFile := .formatDataResponse 0 []
    Allowed Lines.step Honest {} (pre ++ .incoming "A" answer [] :: []) ∧
      ("D", answer) ∈ ((run FileRoute.step {} pre).incoming "A" answer []).forwards ∧
      ∃ t, ((run Lines.step {} pre).line "A").head? = some t ∧ t.dest = .peer "D" := by
  intro pre answer
  have hallowed : Allowed Lines.step Honest {} (pre ++ .incoming "A" answer [] :: []) := by
    refine ⟨trivial, trivial, trivial, ?_, trivial⟩
    show (run Lines.step {} pre).got "A" < ((run Lines.step {} pre).sent "A").length
    decide
  have hmem : ("D", answer) ∈ ((run FileRoute.step {} pre).incoming "A" answer []).forwards := by
    decide
  refine ⟨hallowed, hmem, ?_⟩
  obtain ⟨-, t, ht, hdest, -⟩ := format_data_in_order hallowed hmem
  exact ⟨t, ht, hdest⟩

/-- A peer leaves, comes again under its name and asks for another format: the first
answer passed on to it is the one to the request from before. -/
theorem format_data_after_disconnect :
    let pre : List RouteEvent := [.incoming "A" (.formatList []) [],
      .incoming "D" (.formatDataRequest 1) [], .disconnect "D",
      .incoming "D" (.formatDataRequest 2) []]
    let answer : ClipboardFile := .formatDataResponse 0 []
    Allowed Lines.step Honest {} (pre ++ [.incoming "A" answer []]) ∧
      (run Lines.step {} pre).sent "A" = [1] ∧ (run Lines.step {} pre).got "A" = 0 ∧
      ("D", answer) ∈ ((run FileRoute.step {} pre).incoming "A" answer []).forwards := by
  intro pre answer
  refine ⟨⟨trivial, trivial, trivial, trivial, ?_, trivial⟩, ?_, ?_, ?_⟩
  · show (run Lines.step {} pre).got "A" < ((run Lines.step {} pre).sent "A").length
    decide
  all_goals decide

end Lines

end MDesk.Clipboard
