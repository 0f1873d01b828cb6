import MDesk.Clipboard.RouteStreams

/-!
# The tables of streamed requests

A route looks a streamed request up by its owner and id, and by its requester,
generation and original id. The two tables give back each other's keys exactly as long
as no request replaces the entry of a live one.
-/

namespace MDesk.Clipboard

open MDesk.Core

namespace FileRoute

/-- The value of `requests` holds the original id in front of the generation, the key of
`reverse` behind it. -/
def reverseKey : Destination × Nat × Nat ≃ Destination × Nat × Nat where
  toFun value := (value.1, value.2.2, value.2.1)
  invFun key := (key.1, key.2.2, key.2.1)
  left_inv _ := rfl
  right_inv _ := rfl

/-- `requests` and `reverse` are mutually inverse. -/
def TablesInverse (r : FileRoute) : Prop :=
  ∀ owner id dest original generation,
    r.requests.get (owner, id) = some (dest, original, generation) ↔
      r.reverse.get (dest, generation, original) = some (owner, id)

theorem tablesInverse_iff {r : FileRoute} :
    r.TablesInverse ↔ Table.Inverse reverseKey r.requests r.reverse :=
  ⟨fun h k v => h k.1 k.2 v.1 v.2.1 v.2.2,
    fun h owner id dest original generation => h (owner, id) (dest, original, generation)⟩

/-- The streamed request that a call enters into the tables: its owner, who waits for the
answer, and the frame. -/
def entered (r : FileRoute) (e : RouteEvent) : Option (String × Destination × Frame) :=
  if 1024 ≤ r.requests.len then none
  else
    match e with
    | .outgoing peer (.fileStream f) => if f.kind.asks then some (peer, .local, f) else none
    | .incoming source (.fileStream f) _ =>
      if f.kind.asks then
        ((r.generations.get f.generation).filter (· ≠ source)).map fun owner =>
          (owner, .peer source, f)
      else none
    | _ => none

/-- The request a call enters replaces no entry of another live request. -/
def EntersFresh (r : FileRoute) (e : RouteEvent) : Prop :=
  ∀ owner dest f, r.entered e = some (owner, dest, f) →
    (∀ v, r.requests.get (owner, r.freshId) = some v → v = (dest, f.requestId, f.generation)) ∧
      ∀ k, r.reverse.get (dest, f.generation, f.requestId) = some k → k = (owner, r.freshId)

variable {r r' : FileRoute} {owner source peer : String} {dest : Destination} {f f' : Frame}

theorem TablesInverse.of_same (h : r.TablesInverse) (hreq : r'.requests = r.requests)
    (hrev : r'.reverse = r.reverse) : r'.TablesInverse := by
  intro owner id dest original generation
  rw [hreq, hrev]
  exact h owner id dest original generation

/-- A request keeps the tables inverse exactly when it replaces no entry. -/
theorem request_inverse_iff (h : r.TablesInverse) (hask : r.request owner dest f = some (f', r')) :
    r'.TablesInverse ↔
      (∀ v, r.requests.get (owner, r.freshId) = some v → v = (dest, f.requestId, f.generation)) ∧
        ∀ k, r.reverse.get (dest, f.generation, f.requestId) = some k → k = (owner, r.freshId) := by
  unfold request at hask
  split_ifs at hask
  cases hask
  rw [tablesInverse_iff] at h ⊢
  exact Table.inverse_insert_iff h

/-- Control frames keep the tables inverse. -/
theorem control_inverse (h : r.TablesInverse) (hctl : r.control dest f = some (owner, f', r')) :
    r'.TablesInverse := by
  unfold control at hctl
  split at hctl
  · cases hctl
  · rename_i owner id hget
    cases hctl
    split_ifs
    · have hreq := (h owner id dest f.requestId f.generation).mpr hget
      rw [tablesInverse_iff] at h ⊢
      exact h.remove hreq
    · exact h

theorem request_of_lt (owner : String) (dest : Destination) (f : Frame)
    (hlen : ¬ 1024 ≤ r.requests.len) :
    ∃ f' r', r.request owner dest f = some (f', r') := by
  unfold request
  rw [if_neg hlen]
  exact ⟨_, _, rfl⟩

theorem request_of_le (hlen : 1024 ≤ r.requests.len) : r.request owner dest f = none := by
  unfold request
  rw [if_pos hlen]

/-- A call that enters nothing and keeps the tables inverse. -/
theorem inverse_iff_of_kept {e : RouteEvent} (h : r'.TablesInverse) (hent : r.entered e = none) :
    r'.TablesInverse ↔ r.EntersFresh e := by
  refine iff_of_true h fun owner dest f hf => ?_
  rw [hent] at hf
  cases hf

/-- A call that enters a request. -/
theorem inverse_iff_of_entered {e : RouteEvent} (h : r.TablesInverse)
    (hask : r.request owner dest f = some (f', r')) (hent : r.entered e = some (owner, dest, f)) :
    r'.TablesInverse ↔ r.EntersFresh e := by
  rw [request_inverse_iff h hask]
  constructor
  · intro hfresh owner' dest' g hg
    rw [hent] at hg
    cases hg
    exact hfresh
  · exact fun hfresh => hfresh owner dest f hent

/-- A call that may enter a request, where the table may be full. -/
theorem inverse_iff_of_request {e : RouteEvent} (h : r.TablesInverse) (owner : String)
    (dest : Destination) (f : Frame)
    (hfull : r.request owner dest f = none → r' = r)
    (hask : ∀ f'' r'', r.request owner dest f = some (f'', r'') → r' = r'')
    (hent : r.entered e =
      if 1024 ≤ r.requests.len then none else some (owner, dest, f)) :
    r'.TablesInverse ↔ r.EntersFresh e := by
  by_cases hlen : 1024 ≤ r.requests.len
  · rw [if_pos hlen] at hent
    rw [hfull (request_of_le hlen)]
    exact inverse_iff_of_kept h hent
  · rw [if_neg hlen] at hent
    obtain ⟨f'', r'', hreq⟩ := request_of_lt owner dest f hlen
    rw [hask f'' r'' hreq]
    exact inverse_iff_of_entered h hreq hent

/-- Only frames enter a request. -/
theorem entered_other (peer source : String) {msg : ClipboardFile}
    (hmsg : ∀ f, msg ≠ .fileStream f) :
    r.entered (.outgoing peer msg) = none ∧
      ∀ targets, r.entered (.incoming source msg targets) = none := by
  cases msg with
  | fileStream f => exact absurd rfl (hmsg f)
  | _ => exact ⟨ite_self none, fun _ => ite_self none⟩

/-- A message for a peer keeps the tables inverse exactly when its request is fresh. -/
theorem outgoing_inverse_iff (h : r.TablesInverse) (peer : String) (msg : ClipboardFile) :
    (r.outgoing peer msg).2.TablesInverse ↔ r.EntersFresh (.outgoing peer msg) := by
  by_cases hmsg : ∃ f, msg = .fileStream f
  · obtain ⟨f, rfl⟩ := hmsg
    by_cases hasks : f.kind.asks = true
    · refine inverse_iff_of_request h peer .local f ?_ ?_ ?_
      · intro hreq
        rw [outgoing_asks hasks, hreq]
      · intro f'' r'' hreq
        rw [outgoing_asks hasks, hreq]
      · rw [entered, if_pos hasks]
    · have hent : r.entered (.outgoing peer (.fileStream f)) = none := by
        rw [entered, if_neg hasks, ite_self]
      refine inverse_iff_of_kept ?_ hent
      by_cases hcontrols : f.kind.controls = true
      · rw [outgoing_controls hcontrols]
        split
        · exact h
        · rename_i hctl
          exact control_inverse h hctl
      · rw [outgoing_passes (eq_false_of_ne_true hasks) (eq_false_of_ne_true hcontrols)]
        exact h
  · rw [not_exists] at hmsg
    have hsame := outgoing_tables (r := r) hmsg peer
    exact inverse_iff_of_kept (h.of_same hsame.1 hsame.2) (entered_other peer peer hmsg).1

/-- An answer takes its request out of both tables. -/
theorem answered_inverse {original generation : Nat} (h : r.TablesInverse)
    (hget : r.requests.get (source, f.requestId) = some (dest, original, generation)) :
    (r.answered source f dest original generation).TablesInverse := by
  unfold answered
  split_ifs
  · rw [tablesInverse_iff] at h ⊢
    exact h.remove hget
  · exact h

/-- A frame of a peer keeps the tables inverse exactly when its request is fresh. -/
theorem incomingStream_inverse_iff (h : r.TablesInverse) (source : String) (f : Frame)
    (targets : List String) :
    (r.incomingStream source f).route.TablesInverse ↔
      r.EntersFresh (.incoming source (.fileStream f) targets) := by
  by_cases hasks : f.kind.asks = true
  · cases hgen : (r.generations.get f.generation).filter (· ≠ source) with
    | none =>
      have hent : r.entered (.incoming source (.fileStream f) targets) = none := by
        rw [entered, if_pos hasks, hgen, Option.map_none, ite_self]
      rw [incomingStream_asks hasks, hgen]
      exact inverse_iff_of_kept h hent
    | some owner =>
      refine inverse_iff_of_request h owner (.peer source) f ?_ ?_ ?_
      · intro hreq
        rw [incomingStream_asks hasks, hgen]
        dsimp only
        rw [hreq]
      · intro f'' r'' hreq
        rw [incomingStream_asks hasks, hgen]
        dsimp only
        rw [hreq]
      · rw [entered, if_pos hasks, hgen, Option.map_some]
  · have hent : r.entered (.incoming source (.fileStream f) targets) = none := by
      rw [entered, if_neg hasks, ite_self]
    refine inverse_iff_of_kept ?_ hent
    rcases f.kind.asks_or with hf | hcontrols | hanswers | ⟨n, hn⟩
    · exact absurd hf hasks
    · rw [incomingStream_controls hcontrols]
      split
      · exact h
      · rename_i hctl
        exact control_inverse h hctl
    · rw [incomingStream_answers hanswers]
      split
      · exact h
      · rename_i dest original generation hget
        split_ifs
        · exact h
        · cases dest <;> exact answered_inverse h hget
    · rw [incomingStream_unknown hn]
      exact h

/-- A message of a peer keeps the tables inverse exactly when its request is fresh. -/
theorem incoming_inverse_iff (h : r.TablesInverse) (source : String) (msg : ClipboardFile)
    (targets : List String) :
    (r.incoming source msg targets).route.TablesInverse ↔
      r.EntersFresh (.incoming source msg targets) := by
  by_cases hmsg : ∃ f, msg = .fileStream f
  · obtain ⟨f, rfl⟩ := hmsg
    exact incomingStream_inverse_iff h source f targets
  · rw [not_exists] at hmsg
    have hsame := incoming_tables (r := r) hmsg source targets
    exact inverse_iff_of_kept (h.of_same hsame.1 hsame.2)
      ((entered_other source source hmsg).2 targets)

/-- A disconnect drops the same requests from both tables. -/
theorem disconnect_inverse (h : r.TablesInverse) (peer : String) :
    (r.disconnect peer).TablesInverse := by
  rw [tablesInverse_iff] at h ⊢
  exact h.retain fun _ _ => rfl

/-- A call keeps the tables inverse exactly when the request it enters is fresh. -/
theorem step_inverse_iff (r : FileRoute) (e : RouteEvent) (h : r.TablesInverse) :
    (r.step e).TablesInverse ↔ r.EntersFresh e := by
  cases e with
  | outgoing peer msg => exact outgoing_inverse_iff h peer msg
  | incoming source msg targets => exact incoming_inverse_iff h source msg targets
  | disconnect peer => exact inverse_iff_of_kept (disconnect_inverse h peer) (ite_self none)

/-- The two tables are mutually inverse in every state of a run exactly when every request
that the run enters is fresh. -/
theorem tables_inverse_iff (es : List RouteEvent) :
    (∀ pre, pre <+: es → (run step {} pre).TablesInverse) ↔ Allowed step EntersFresh {} es :=
  allowed_iff_keeps step_inverse_iff (tablesInverse_iff.mpr Table.inverse_empty)

/-- A peer that repeats the id of a live request leaves a request without its inverse. -/
theorem tables_not_inverse_repeated :
    let ask : RouteEvent := .incoming "B" (.fileStream {
      kind := .request, generation := 7, requestId := 1 }) []
    let announce : RouteEvent :=
      .incoming "A" (.formatList [(0, "MDesk.FileStream.v1:0000000000000007")]) []
    let r := run step {} [announce, ask, ask]
    ¬ r.TablesInverse := by
  intro ask announce r h
  have hget : r.requests.get ("A", 1) = some (.peer "B", 1, 7) := by decide
  have hback := (h _ _ _ _ _).mp hget
  revert hback
  decide

end FileRoute

end MDesk.Clipboard
