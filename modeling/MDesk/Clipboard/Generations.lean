import MDesk.Clipboard.RouteStreams

/-!
# Who owns a generation

A list of formats binds the generation it announces to its sender. The table of the
bindings is emptied when it is full; a generation stays with its sender as long as no
other peer announces it behind that.
-/

namespace MDesk.Clipboard

open MDesk.Core

/-- A call sends a request for a stream of a generation to a peer. -/
def FileRoute.RoutesRequest (r : FileRoute) (e : RouteEvent) (generation : Nat) (peer : String) :
    Prop :=
  ∃ f, f.kind.asks = true ∧ f.generation = generation ∧
    match e with
    | .outgoing peer' msg => peer = peer' ∧ (r.outgoing peer' msg).1 = some (.fileStream f)
    | .incoming source msg targets =>
      (peer, .fileStream f) ∈ (r.incoming source msg targets).forwards
    | .disconnect _ => False

/-- A route with the bindings that peers made and have not left since. -/
structure BoundRoute where
  route : FileRoute := {}
  bound : List (Nat × String) := []

namespace BoundRoute

/-- One call. A list of formats that is not refused binds its generation. -/
def step (s : BoundRoute) (e : RouteEvent) : BoundRoute where
  route := s.route.step e
  bound :=
    match e with
    | .incoming source (.formatList formatList) targets =>
      if generation formatList = 0 ∨
          (s.route.incoming source (.formatList formatList) targets).handled then
        s.bound
      else (generation formatList, source) :: s.bound
    | .disconnect peer => s.bound.filter fun binding => binding.2 ≠ peer
    | _ => s.bound

/-- The condition on a call: a generation that is bound to another peer is still in the
table when it is announced, and is asked of its owner. -/
def KeepsBindings (s : BoundRoute) : RouteEvent → Prop
  | .incoming source (.formatList formatList) _ =>
    ∀ binding ∈ s.bound, binding.1 = generation formatList → binding.2 ≠ source →
      (s.route.generations.get (generation formatList)).isSome
  | .outgoing peer (.fileStream f) =>
    f.kind.asks = true → ∀ binding ∈ s.bound, binding.1 = f.generation → binding.2 = peer
  | _ => True

instance (s : BoundRoute) : ∀ e, Decidable (s.KeepsBindings e)
  | .incoming _ (.formatList _) _ => inferInstanceAs (Decidable (∀ binding ∈ s.bound, _))
  | .outgoing _ (.fileStream f) => inferInstanceAs (Decidable (f.kind.asks = true → _))
  | .incoming _ (.fileStream _) _ | .incoming _ (.formatDataRequest _) _
  | .incoming _ (.formatDataResponse _ _) _ | .incoming _ (.fileContentsRequest ..) _
  | .incoming _ (.fileContentsResponse ..) _ | .incoming _ .tryEmpty _ | .incoming _ (.other _) _
  | .outgoing _ (.formatList _) | .outgoing _ (.formatDataRequest _)
  | .outgoing _ (.formatDataResponse _ _) | .outgoing _ (.fileContentsRequest ..)
  | .outgoing _ (.fileContentsResponse ..) | .outgoing _ .tryEmpty | .outgoing _ (.other _)
  | .disconnect _ => inferInstanceAs (Decidable True)

/-- The table agrees with every binding that was made. -/
structure Inv (s : BoundRoute) : Prop where
  queues : s.route.QueuesAsk
  agrees : ∀ g p, s.route.generations.get g = some p → ∀ binding ∈ s.bound, binding.1 = g →
    binding.2 = p

variable {s : BoundRoute} {r : FileRoute}

/-- Local messages leave the bindings of the table alone. -/
theorem generations_outgoing (peer : String) (msg : ClipboardFile) :
    (r.outgoing peer msg).2.generations = r.generations := by
  cases msg with
  | fileStream f => exact FileRoute.outgoing_stream_rest.generations
  | formatDataRequest id =>
    simp only [FileRoute.outgoing, FileRoute.enqueueMetadata]
    split_ifs <;> rfl
  | fileContentsRequest streamId listIndex dwFlags low high cb haveId clipId =>
    simp only [FileRoute.outgoing]
    split_ifs <;> rfl
  | _ => rfl

/-- Messages of a peer other than lists of formats leave the bindings of the table alone. -/
theorem generations_incoming {msg : ClipboardFile} (hmsg : ∀ formats, msg ≠ .formatList formats)
    (source : String) (targets : List String) :
    (r.incoming source msg targets).route.generations = r.generations := by
  cases msg with
  | fileStream f => exact FileRoute.incomingStream_rest.generations
  | formatList formats => exact absurd rfl (hmsg formats)
  | tryEmpty =>
    simp only [FileRoute.incoming]
    split_ifs <;> rfl
  | formatDataRequest id =>
    simp only [FileRoute.incoming]
    split
    · rfl
    · simp only [FileRoute.enqueueMetadata]
      split_ifs <;> rfl
  | formatDataResponse flags data =>
    simp only [FileRoute.incoming, FileRoute.incomingResponse]
    split
    · rfl
    · split <;> rfl
  | fileContentsRequest streamId listIndex dwFlags low high cb haveId clipId =>
    simp only [FileRoute.incoming]
    split
    · rfl
    · split_ifs <;> rfl
  | fileContentsResponse flags streamId data =>
    simp only [FileRoute.incoming]
    split
    · rfl
    · split <;> rfl
  | other n => rfl

/-- A list of formats is refused, or binds its generation in the table. -/
theorem incoming_formatList {formats : List (Int × String)} (hgen : generation formats ≠ 0)
    (source : String) (targets : List String) :
    let routed := r.incoming source (.formatList formats) targets
    (routed.handled = true ∧ routed.route.generations = r.generations) ∨
      routed.handled = false ∧
        (∀ p, r.generations.get (generation formats) = some p → p = source) ∧
        ∀ g p, routed.route.generations.get g = some p →
          (g = generation formats ∧ p = source) ∨ r.generations.get g = some p := by
  simp only [FileRoute.incoming, FileRoute.incomingFormats]
  rw [if_neg hgen]
  by_cases hrefused : (r.generations.get (generation formats)).any (· ≠ source) = true
  · rw [if_pos hrefused]
    exact .inl ⟨rfl, rfl⟩
  · rw [if_neg hrefused]
    refine .inr ⟨rfl, fun p hp => ?_, fun g p hp => ?_⟩
    · rw [hp] at hrefused
      simpa using hrefused
    · dsimp only at hp
      rw [Table.get_insert] at hp
      split_ifs at hp with hg
      · exact .inl ⟨hg, (Option.some.inj hp).symm⟩
      · rw [Table.get_empty] at hp
        cases hp
      · exact .inr hp

/-- Every call that meets its condition keeps the table in agreement with the bindings. -/
theorem step_inv (h : s.Inv) {e : RouteEvent} (hkeep : s.KeepsBindings e) : (s.step e).Inv := by
  refine ⟨h.queues.step e, ?_⟩
  cases e with
  | outgoing peer msg =>
    intro g p hget
    have hgens : (s.step (.outgoing peer msg)).route.generations = s.route.generations :=
      generations_outgoing peer msg
    rw [hgens] at hget
    exact h.agrees g p hget
  | incoming source msg targets =>
    by_cases hmsg : ∃ formats, msg = .formatList formats
    · obtain ⟨formats, rfl⟩ := hmsg
      by_cases hgen : generation formats = 0
      · have hgens : (s.step (.incoming source (.formatList formats) targets)).route.generations =
            s.route.generations := by
          simp only [step, FileRoute.step, FileRoute.incoming, FileRoute.incomingFormats]
          rw [if_pos hgen]
        have hbound : (s.step (.incoming source (.formatList formats) targets)).bound = s.bound :=
          if_pos (.inl hgen)
        intro g p hget
        rw [hgens] at hget
        rw [hbound]
        exact h.agrees g p hget
      · intro g p hget binding hmem hbinding
        simp only [step, FileRoute.step] at hget hmem
        rcases incoming_formatList (r := s.route) hgen source targets with
          ⟨hhandled, hgens⟩ | ⟨hhandled, hfree, hgens⟩
        · rw [hgens] at hget
          rw [if_pos (.inr hhandled)] at hmem
          exact h.agrees g p hget binding hmem hbinding
        · rw [if_neg (by simp [hgen, hhandled])] at hmem
          rcases hgens g p hget with ⟨rfl, rfl⟩ | hold
          · rcases List.mem_cons.mp hmem with rfl | hmem
            · rfl
            · -- an older binding: were it another peer's, the table would still hold it
              by_contra hne
              obtain ⟨owner, howner⟩ := Option.isSome_iff_exists.mp
                (hkeep binding hmem hbinding hne)
              have hsame := h.agrees _ _ howner binding hmem hbinding
              rw [hsame, hfree owner howner] at hne
              exact hne rfl
          · rcases List.mem_cons.mp hmem with rfl | hmem
            · dsimp only at hbinding
              subst hbinding
              exact (hfree p hold).symm
            · exact h.agrees g p hold binding hmem hbinding
    · have hgens : (s.step (.incoming source msg targets)).route.generations =
          s.route.generations :=
        generations_incoming (fun formats heq => hmsg ⟨formats, heq⟩) source targets
      have hbound : (s.step (.incoming source msg targets)).bound = s.bound := by
        cases msg <;> first | rfl | exact absurd ⟨_, rfl⟩ hmsg
      intro g p hget
      rw [hgens] at hget
      rw [hbound]
      exact h.agrees g p hget
  | disconnect peer =>
    intro g p hget binding hmem hbinding
    simp only [step, FileRoute.step, FileRoute.disconnect] at hget hmem
    rw [Table.get_retain_eq_some_iff] at hget
    exact h.agrees g p hget.1 binding (List.mem_of_mem_filter hmem) hbinding

/-- A request is routed to the peer its generation is bound to. -/
theorem routes_to_bound (h : s.Inv) {e : RouteEvent} (hkeep : s.KeepsBindings e)
    {binding : Nat × String} (hmem : binding ∈ s.bound) {peer : String}
    (hroutes : s.route.RoutesRequest e binding.1 peer) : peer = binding.2 := by
  obtain ⟨f, hasks, hgen, hroutes⟩ := hroutes
  cases e with
  | outgoing peer' msg =>
    obtain ⟨rfl, hsent⟩ := hroutes
    cases msg with
    | fileStream g =>
      by_cases hg : g.kind.asks = true
      · have hkept : f.generation = g.generation := by
          rw [FileRoute.outgoing_asks hg] at hsent
          split at hsent
          · cases hsent
          · rename_i g' r' hreq
            unfold FileRoute.request at hreq
            split_ifs at hreq
            cases hreq
            cases hsent
            rfl
        exact (hkeep hg binding hmem (hgen.symm.trans hkept)).symm
      · have hkind : f.kind = g.kind := by
          by_cases hcontrols : g.kind.controls = true
          · rw [FileRoute.outgoing_controls hcontrols] at hsent
            split at hsent
            · cases hsent
            · rename_i hctl
              unfold FileRoute.control at hctl
              split at hctl
              · cases hctl
              · cases hctl
                cases hsent
                rfl
          · rw [FileRoute.outgoing_passes (eq_false_of_ne_true hg)
              (eq_false_of_ne_true hcontrols)] at hsent
            cases hsent
            rfl
        rw [hkind] at hasks
        exact absurd hasks hg
    | formatDataRequest id =>
      have heq := FileRoute.eq_of_enqueueMetadata hsent
      cases heq
    | fileContentsRequest streamId listIndex dwFlags low high cb haveId clipId =>
      simp only [FileRoute.outgoing] at hsent
      split_ifs at hsent
      cases hsent
    | _ => cases hsent
  | incoming source msg targets =>
    obtain ⟨g, rfl, hforward⟩ := FileRoute.stream_forwarded h.queues hroutes
    cases hforward with
    | asked hf hget hne hlen => exact (h.agrees _ _ hget binding hmem hgen.symm).symm
    | refused hf hlen => cases hasks
    | controlled hf hget =>
      rw [FrameKind.asks_of_controls hf] at hasks
      cases hasks
    | answered hf hget =>
      rw [FrameKind.asks_of_answers hf] at hasks
      cases hasks
  | disconnect peer => exact absurd hroutes id

/-- In a run whose calls meet the condition, every request for a generation that was bound
to a peer goes to that peer until it leaves. -/
theorem requests_routed_to_bound {pre : List RouteEvent} {e : RouteEvent} {post : List RouteEvent}
    (h : Allowed step KeepsBindings {} (pre ++ e :: post)) {binding : Nat × String}
    (hmem : binding ∈ (run step {} pre).bound) {peer : String}
    (hroutes : (run step {} pre).route.RoutesRequest e binding.1 peer) : peer = binding.2 := by
  obtain ⟨hpre, hkeep, -⟩ := allowed_append.mp h
  have hinv : (run step {} pre).Inv := by
    refine run_keeps (Q := Inv) (fun s e hs he => step_inv hs he) ⟨?_, ?_⟩ hpre
    · intro owner pending hmem
      cases hmem
    · intro g p hget
      cases hget
  exact routes_to_bound hinv hkeep hmem hroutes

/-- A peer announces a generation and another one asks for it. -/
theorem requests_routed_to_bound_one :
    let announce : RouteEvent :=
      .incoming "A" (.formatList [(0, "MDesk.FileStream.v1:0000000000000007")]) []
    let ask : RouteEvent := .incoming "C" (.fileStream { kind := .request, generation := 7 }) []
    Allowed step KeepsBindings {} ([announce] ++ ask :: []) ∧
      (7, "A") ∈ (run step {} [announce]).bound ∧
      (run step {} [announce]).route.RoutesRequest ask 7 "A" ∧ "A" = "A" := by
  have hallowed : Allowed step KeepsBindings {} ([RouteEvent.incoming "A"
      (.formatList [(0, "MDesk.FileStream.v1:0000000000000007")]) []] ++
      RouteEvent.incoming "C" (.fileStream { kind := .request, generation := 7 }) [] :: []) := by
    decide
  have hmem : (7, "A") ∈ (run step {} [RouteEvent.incoming "A"
      (.formatList [(0, "MDesk.FileStream.v1:0000000000000007")]) []]).bound := by
    decide
  have hroutes : (run step {} [RouteEvent.incoming "A"
      (.formatList [(0, "MDesk.FileStream.v1:0000000000000007")]) []]).route.RoutesRequest
      (.incoming "C" (.fileStream { kind := .request, generation := 7 }) []) 7 "A" :=
    ⟨{ kind := .request, generation := 7, requestId := 1 }, rfl, rfl, by decide⟩
  exact ⟨hallowed, hmem, hroutes, requests_routed_to_bound hallowed hmem hroutes⟩

/-- What a list of formats does, which depends on its generation only. -/
def announce (s : BoundRoute) (source : String) (g : Nat) : BoundRoute :=
  if g = 0 then { s with route := { s.route with owner := some source } }
  else if (s.route.generations.get g).any (· ≠ source) then s
  else
    { route := { s.route with
        generations := (if 64 ≤ s.route.generations.len then ∅ else s.route.generations).insert g
          source
        owner := some source }
      bound := (g, source) :: s.bound }

theorem step_formatList (s : BoundRoute) (source : String) (formats : List (Int × String))
    (targets : List String) :
    s.step (.incoming source (.formatList formats) targets) =
      s.announce source (generation formats) := by
  unfold step announce FileRoute.step FileRoute.incoming FileRoute.incomingFormats
  by_cases hgen : generation formats = 0
  · simp [hgen]
  · by_cases hrefused : (s.route.generations.get (generation formats)).any (· ≠ source) = true
    · simp only [if_neg hgen, if_pos hrefused, or_true, if_true]
    · simp only [if_neg hrefused, hgen, or_self, if_false, Bool.false_eq_true]

/-- A list of formats that announces one of a hundred generations. -/
def announcement (n : Nat) : List (Int × String) :=
  [(0, String.ofList (formatPrefix ++ List.replicate 14 '0' ++
    [Char.ofNat ('0'.toNat + n / 10), Char.ofNat ('0'.toNat + n % 10)]))]

theorem generation_announcement : ∀ n ∈ List.range 100, n ≠ 0 →
    generation (announcement n) = 16 * (n / 10) + n % 10 := by
  have hchars : ∀ n ∈ List.range 100, n ≠ 0 →
      formatGeneration (formatPrefix ++ List.replicate 14 '0' ++
        [Char.ofNat ('0'.toNat + n / 10), Char.ofNat ('0'.toNat + n % 10)]) =
          some (16 * (n / 10) + n % 10) := by
    decide +kernel
  intro n hn hpos
  rw [generation, announcement, List.findSome?_cons, String.toList_ofList, hchars n hn hpos]
  rfl

/-- A peer that fills the table takes over the generation of another one. -/
theorem requests_routed_to_other :
    let es : List RouteEvent :=
      (("A", 7) :: ((List.range 64).map fun n => ("B", n + 10)) ++ [("B", 7)]).map
        fun e : String × Nat => .incoming e.1 (.formatList (announcement e.2)) []
    (7, "A") ∈ (run step {} es).bound ∧
      (run step {} es).route.RoutesRequest
        (.incoming "C" (.fileStream { kind := .request, generation := 7 }) []) 7 "B" := by
  intro es
  have hrun : run step {} es =
      (("A", 7) :: ((List.range 64).map fun n => ("B", n + 10)) ++ [("B", 7)]).foldl
        (fun s (e : String × Nat) => s.announce e.1 (16 * (e.2 / 10) + e.2 % 10)) {} := by
    rw [run, List.foldl_map]
    apply List.foldl_ext
    intro s e he
    have hrange : e.2 ∈ List.range 100 ∧ e.2 ≠ 0 := by
      revert e
      decide
    rw [step_formatList, generation_announcement e.2 hrange.1 hrange.2]
  rw [hrun]
  refine ⟨by decide +kernel, { kind := .request, generation := 7, requestId := 1 }, rfl, rfl, ?_⟩
  decide +kernel

end BoundRoute

end MDesk.Clipboard
