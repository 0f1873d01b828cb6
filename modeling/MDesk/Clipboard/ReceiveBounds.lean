import MDesk.Clipboard.RandomAccess
import MDesk.Core.MachineInt
import MDesk.Core.Run

/-!
# The bounds of a stream that is received

A peer may send any frames, and reads may go on at the same time. What is queued stays within
the window, the counters stay in order, and no operation on them leaves its range.
-/

namespace MDesk.Clipboard

open MDesk.Core

variable (P : Platform)

namespace Receive

/-- `accept` with the arithmetic of the machine: nothing where a number leaves its range. -/
def acceptChecked (r : Receive) (f : Frame) : Option (Except String Receive) :=
  if ¬ f.About r.frame ∨ f.offset ≠ r.received ∨ r.ended ∨ r.failed then
    some (.error "clipboard stream response mismatch")
  else
    match f.kind with
    | .block =>
      match blockData P f with
      | .error e => some (.error e)
      | .ok data =>
        if r.frame.size < r.received then some (.error "clipboard size overflow")
        else if data.length ≠ needed r.frame.size r.received ∨ data = [] then
          some (.error "clipboard stream exceeds receive window or declared size")
        else
          (checkedSub r.received r.consumed).bind fun queued =>
          (checkedAdd64 queued data.length).bind fun queued =>
          if windowBytes < queued then
            some (.error "clipboard stream exceeds receive window or declared size")
          else
            (checkedAdd64 r.received data.length).map fun received =>
              .ok { r with received, chunks := r.chunks ++ [data] }
    | .end =>
      if f.data = [] ∧ ¬ f.compressed ∧ r.received = r.frame.size then
        some (.ok { r with ended := true })
      else some (.error "invalid clipboard stream termination")
    | _ => some (.error "invalid clipboard stream termination")

/-- `handle` with the arithmetic of the machine. -/
def handleChecked (r : Receive) (f : Frame) : Option Receive :=
  if f.About r.frame then
    (r.acceptChecked P f).map fun accepted =>
      match accepted with
      | .error _ => { r with failed := true }
      | .ok r => r
  else some r

/-- A round of `read` with the arithmetic of the machine. -/
def takeChecked (r : Receive) (want : Nat) : Option (Bytes × Option Frame × Receive) :=
  match r.chunks with
  | [] => some ([], none, r)
  | front :: chunks =>
    (checkedSub front.length r.front).bind fun left =>
    let count := min left want
    let data := (front.drop r.front).take count
    (checkedAdd64 r.front count).bind fun next =>
    (checkedAdd64 r.consumed count).map fun consumed =>
      let r := { r with front := next, consumed }
      if r.front = front.length then (data, some r.credit, { r with chunks, front := 0 })
      else (data, none, r)

/-- The bytes of the queued chunks. -/
def queuedBytes (r : Receive) : Nat := (r.chunks.map List.length).sum

/-- The bounds of a stream. -/
structure Bounded (r : Receive) : Prop where
  consumed_le : r.consumed ≤ r.received
  received_le : r.received ≤ r.frame.size
  front_le : r.front ≤ r.queuedBytes
  queued : r.queuedBytes - r.front = r.received - r.consumed
  window : r.queuedBytes - r.front ≤ windowBytes

/-- The bounds with the shape of the queue: no chunk is empty or longer than a block, and the
first one is not exhausted. -/
structure Queued (r : Receive) : Prop extends Bounded r where
  small : r.frame.size < 2 ^ 64
  chunk : ∀ chunk ∈ r.chunks, 0 < chunk.length ∧ chunk.length ≤ blockBytes
  front_lt : ∀ chunk ∈ r.chunks.head?, r.front < chunk.length

variable {P} {r r' : Receive} {f : Frame} {want : Nat}

theorem queued_new {request : Frame} (hsize : request.size < 2 ^ 64)
    (hoffset : request.offset ≤ request.size) : (new request).Queued where
  consumed_le := Nat.le_refl _
  received_le := hoffset
  front_le := Nat.le_refl _
  queued := (Nat.sub_self _).symm
  window := Nat.zero_le _
  small := hsize
  chunk := nofun
  front_lt := nofun

/-- The arithmetic of `accept` stays in its range. -/
theorem Queued.acceptChecked_eq (h : r.Queued) (f : Frame) :
    r.acceptChecked P f = some (r.accept P f) := by
  unfold acceptChecked accept
  by_cases hmismatch : ¬ f.About r.frame ∨ f.offset ≠ r.received ∨ r.ended ∨ r.failed
  · rw [if_pos hmismatch, if_pos hmismatch]
  · rw [if_neg hmismatch, if_neg hmismatch]
    cases f.kind with
    | block =>
      cases hdata : blockData P f with
      | error e => rfl
      | ok data =>
        dsimp only
        have hsmall := h.small
        have hle := h.consumed_le
        by_cases hsize : r.frame.size < r.received
        · rw [if_pos hsize, if_pos hsize]
        rw [if_neg hsize, if_neg hsize]
        by_cases hlen : data.length ≠ needed r.frame.size r.received ∨ data = []
        · rw [if_pos hlen, if_pos (or_assoc.mp (.inl hlen))]
        rw [if_neg hlen]
        push Not at hlen
        have hneeded := add_needed_le (Nat.not_lt.mp hsize)
        rw [checkedSub_of_le hle, Option.bind_some, checkedAdd64_of_lt (by omega),
          Option.bind_some, checkedAdd64_of_lt (by omega)]
        by_cases hwindow : windowBytes < r.received - r.consumed + data.length
        · rw [if_pos hwindow, if_pos (.inr (.inr hwindow))]
        · rw [if_neg hwindow, if_neg]
          · rfl
          · rintro (hne | hnil | hlt)
            · exact hne hlen.1
            · exact hlen.2 hnil
            · exact hwindow hlt
    | «end» =>
      dsimp only
      split_ifs <;> rfl
    | _ => rfl

/-- A block is accepted within the declared size and the window. -/
theorem accept_push {data : Bytes} (h : r.accept P f = .ok r') (hkind : f.kind = .block)
    (hdata : blockData P f = .ok data) :
    r' = r.push data ∧ data ≠ [] ∧ data.length = needed r.frame.size r.received ∧
      r.received ≤ r.frame.size ∧ r.received - r.consumed + data.length ≤ windowBytes := by
  unfold accept at h
  rw [hkind] at h
  dsimp only at h
  rw [hdata] at h
  dsimp only at h
  split_ifs at h with hmismatch hsize hbad
  push Not at hbad
  cases h
  exact ⟨rfl, hbad.2.1, hbad.1, Nat.not_lt.mp hsize, hbad.2.2⟩

/-- The bounds do not depend on how a stream ends. -/
theorem Queued.marked (h : r.Queued) (ended failed : Bool) : { r with ended, failed }.Queued := by
  obtain ⟨⟨h1, h2, h3, h4, h5⟩, h6, h7, h8⟩ := h
  exact ⟨⟨h1, h2, h3, h4, h5⟩, h6, h7, h8⟩

theorem Queued.accept (h : r.Queued) (hr : r.accept P f = .ok r') : r'.Queued := by
  obtain ⟨-, -, ⟨hkind, data, hdata, -, -⟩ | ⟨-, rfl⟩⟩ := accept_cases hr
  · obtain ⟨rfl, hne, hlen, hle, hwindow⟩ := accept_push hr hkind hdata
    have hpos := List.length_pos_iff.mpr hne
    have hneeded := add_needed_le hle
    have hqueued : (r.push data).queuedBytes = r.queuedBytes + data.length := by
      simp [queuedBytes, push]
    have hconsumed := h.consumed_le
    have hfront := h.front_le
    have hbytes := h.queued
    refine ⟨⟨?_, ?_, ?_, ?_, ?_⟩, h.small, ?_, ?_⟩
    · show r.consumed ≤ r.received + data.length
      omega
    · show r.received + data.length ≤ r.frame.size
      omega
    · show r.front ≤ _
      omega
    · rw [hqueued]
      show _ - r.front = r.received + data.length - r.consumed
      omega
    · rw [hqueued]
      show _ - r.front ≤ _
      omega
    · intro chunk hchunk
      rcases List.mem_append.mp hchunk with hold | hnew
      · exact h.chunk chunk hold
      · rw [List.mem_singleton.mp hnew]
        exact ⟨hpos, hlen.le.trans (needed_le _ _)⟩
    · intro chunk hchunk
      show r.front < chunk.length
      cases hchunks : r.chunks with
      | nil =>
        simp only [push, hchunks] at hchunk
        cases hchunk
        simp only [queuedBytes, hchunks, List.map_nil, List.sum_nil] at hfront
        omega
      | cons head chunks =>
        simp only [push, hchunks] at hchunk
        cases hchunk
        exact h.front_lt _ (by rw [hchunks]; rfl)
  · exact h.marked true r.failed

/-- No frame takes a stream out of its bounds, nor a number out of its range. -/
theorem Queued.handle (h : r.Queued) (f : Frame) :
    r.handleChecked P f = some (r.handle P f) ∧ (r.handle P f).Queued := by
  unfold handleChecked Receive.handle
  split_ifs
  · rw [h.acceptChecked_eq]
    cases hr : r.accept P f with
    | error e => exact ⟨rfl, h.marked r.ended true⟩
    | ok r' => exact ⟨rfl, h.accept hr⟩
  · exact ⟨rfl, h⟩

/-- The arithmetic of a round of a read stays in its range. -/
theorem Queued.takeChecked_eq (h : r.Queued) (want : Nat) :
    r.takeChecked want = some (r.take want) := by
  have hle := h.consumed_le
  have hle' := h.received_le
  have hbytes := h.queued
  have hsmall := h.small
  unfold takeChecked Receive.take
  cases hchunks : r.chunks with
  | nil => rfl
  | cons front chunks =>
    have hfront := h.front_lt front (by rw [hchunks]; rfl)
    have hchunk := (h.chunk front (by rw [hchunks]; exact List.mem_cons_self)).2
    have hblock : blockBytes < 2 ^ 64 := by decide
    have hsum : r.queuedBytes = front.length + (chunks.map List.length).sum := by
      simp [queuedBytes, hchunks]
    dsimp only
    rw [checkedSub_of_le hfront.le, Option.bind_some, checkedAdd64_of_lt (by omega),
      Option.bind_some, checkedAdd64_of_lt (by omega), Option.map_some]

/-- A round of a read keeps the bounds. -/
theorem Queued.take (h : r.Queued) (want : Nat) : (r.take want).2.2.Queued := by
  have hle := h.consumed_le
  have hle' := h.received_le
  have hbytes := h.queued
  have hwindow := h.window
  cases hchunks : r.chunks with
  | nil =>
    rw [Receive.take, hchunks]
    exact h
  | cons front chunks =>
    have hfront := h.front_lt front (by rw [hchunks]; rfl)
    have hsum : r.queuedBytes = front.length + (chunks.map List.length).sum := by
      simp [queuedBytes, hchunks]
    by_cases hall : front.length - r.front ≤ want
    · rw [take_exhausted hchunks hfront hall]
      have hrest : ∀ chunk ∈ chunks, 0 < chunk.length ∧ chunk.length ≤ blockBytes :=
        fun chunk hmem => h.chunk chunk (by rw [hchunks]; exact List.mem_cons_of_mem _ hmem)
      refine ⟨⟨?_, hle', Nat.zero_le _, ?_, ?_⟩, h.small, hrest, ?_⟩
      · show r.consumed + (front.length - r.front) ≤ r.received
        omega
      · show (chunks.map List.length).sum - 0 =
          r.received - (r.consumed + (front.length - r.front))
        omega
      · show (chunks.map List.length).sum - 0 ≤ windowBytes
        omega
      · exact fun chunk hmem => (hrest chunk (List.mem_of_mem_head? hmem)).1
    · rw [Nat.not_le] at hall
      rw [take_short hchunks hall]
      refine ⟨⟨?_, hle', ?_, ?_, ?_⟩, h.small, h.chunk, ?_⟩
      · show r.consumed + want ≤ r.received
        omega
      · show r.front + want ≤ r.queuedBytes
        omega
      · show r.queuedBytes - (r.front + want) = r.received - (r.consumed + want)
        omega
      · show r.queuedBytes - (r.front + want) ≤ windowBytes
        omega
      · intro chunk hmem
        rw [hchunks] at hmem
        cases hmem
        show r.front + want < front.length
        omega

/-- A round takes no more than the read wants. -/
theorem length_take_le (r : Receive) (want : Nat) : (r.take want).1.length ≤ want := by
  unfold Receive.take
  cases r.chunks with
  | nil => exact Nat.zero_le _
  | cons front chunks =>
    dsimp only
    split_ifs
    · exact (List.length_take_le _ _).trans (Nat.min_le_right _ _)
    · exact (List.length_take_le _ _).trans (Nat.min_le_right _ _)

/-- A stream that has ended or failed accepts no frame. -/
theorem accept_closed (h : r.ended = true ∨ r.failed = true) (f : Frame) :
    r.accept P f = .error "clipboard stream response mismatch" :=
  if_pos (.inr (.inr h))

/-- A frame leaves it closed, with what it has received. -/
theorem handle_closed (h : r.ended = true ∨ r.failed = true) (f : Frame) :
    ((r.handle P f).ended = true ∨ (r.handle P f).failed = true) ∧
      (r.handle P f).received = r.received := by
  unfold Receive.handle
  rw [accept_closed h]
  split_ifs
  · exact ⟨.inr rfl, rfl⟩
  · exact ⟨h, rfl⟩

/-- A round of a read does not open it again. -/
theorem take_keeps (r : Receive) (want : Nat) :
    (r.take want).2.2.ended = r.ended ∧ (r.take want).2.2.failed = r.failed ∧
      (r.take want).2.2.received = r.received := by
  unfold Receive.take
  cases r.chunks with
  | nil => exact ⟨rfl, rfl, rfl⟩
  | cons front chunks =>
    dsimp only
    split_ifs
    · exact ⟨rfl, rfl, rfl⟩
    · exact ⟨rfl, rfl, rfl⟩

end Receive

/-- A read in its loop: where it began, what it wants and how much of it is done. -/
structure Pull where
  offset : Nat
  wanted : Nat
  done : Nat := 0
  deriving DecidableEq, Repr

/-- A stream with the reads that hold on to it. -/
structure Reception where
  receive : Receive
  pulls : List Pull := []
  deriving DecidableEq, Repr

/-- What happens to a stream: a frame of the peer, its release, a read with a buffer that goes on
where the stream is, a round or the end of a read, and a read that gives up. -/
inductive ReceptionEvent where
  | frame (f : Frame)
  | release
  | read (len : Nat)
  | round (i : Nat)
  | giveUp (i : Nat)
  deriving DecidableEq, Repr

namespace Reception

/-- The stream of a new request. -/
def start (request : Frame) : Reception := { receive := .new request }

/-- A stream fails. -/
def release (s : Reception) : Reception := { s with receive := { s.receive with failed := true } }

/-- The end of a read: behind the last byte it waits for the end of the stream. -/
def finish (s : Reception) (i : Nat) (position : Nat) : Reception :=
  if position = s.receive.frame.size then
    if s.receive.ended = false ∧ s.receive.failed = false then s
    else { s.release with pulls := s.pulls.eraseIdx i }
  else { s with pulls := s.pulls.eraseIdx i }

/-- A round of the loop of a read, or its end. -/
def round (s : Reception) (i : Nat) (p : Pull) : Reception :=
  if p.done < p.wanted then
    if s.receive.failed ∨ s.receive.chunks = [] then s
    else
      let (data, _, receive) := s.receive.take (p.wanted - p.done)
      { receive, pulls := s.pulls.set i { p with done := p.done + data.length } }
  else s.finish i (p.offset + p.done)

/-- The stream behind an event. -/
def step (s : Reception) : ReceptionEvent → Reception
  | .frame f => { s with receive := s.receive.handle P f }
  | .release => s.release
  | .read len =>
    if len = 0 ∨ s.receive.consumed = s.receive.frame.size then s
    else { s with pulls := s.pulls ++ [{
      offset := s.receive.consumed
      wanted := min len (s.receive.frame.size - s.receive.consumed) }] }
  | .round i =>
    match s.pulls[i]? with
    | none => s
    | some p => s.round i p
  | .giveUp i => { s with pulls := s.pulls.eraseIdx i }

/-- A round with the arithmetic of the machine. -/
def roundChecked (s : Reception) (i : Nat) (p : Pull) : Option Reception :=
  if p.done < p.wanted then
    if s.receive.failed ∨ s.receive.chunks = [] then some s
    else
      (checkedSub p.wanted p.done).bind fun want =>
      (s.receive.takeChecked want).bind fun (data, _, receive) =>
      (checkedAdd64 p.done data.length).map fun done =>
        { receive, pulls := s.pulls.set i { p with done } }
  else (checkedAdd64 p.offset p.done).map fun position => s.finish i position

/-- An event with the arithmetic of the machine. -/
def stepChecked (s : Reception) : ReceptionEvent → Option Reception
  | .frame f => (s.receive.handleChecked P f).map fun receive => { s with receive }
  | .release => some s.release
  | .read len =>
    if len = 0 ∨ s.receive.consumed = s.receive.frame.size then some s
    else
      (checkedSub s.receive.frame.size s.receive.consumed).map fun left =>
        { s with pulls := s.pulls ++ [{ offset := s.receive.consumed, wanted := min len left }] }
  | .round i =>
    match s.pulls[i]? with
    | none => some s
    | some p => s.roundChecked i p
  | .giveUp i => some { s with pulls := s.pulls.eraseIdx i }

/-- The stream is within its bounds, and every read stays inside the file. -/
structure Inv (size : Nat) (s : Reception) : Prop where
  queued : s.receive.Queued
  size_eq : s.receive.frame.size = size
  pull : ∀ p ∈ s.pulls, p.done ≤ p.wanted ∧ p.offset + p.wanted ≤ size

variable {P} {size : Nat} {s : Reception}

theorem Inv.finish (h : Inv size s) (i position : Nat) : Inv size (s.finish i position) := by
  have hpull : ∀ p ∈ s.pulls.eraseIdx i, p.done ≤ p.wanted ∧ p.offset + p.wanted ≤ size :=
    fun p hp => h.pull p (List.mem_of_mem_eraseIdx hp)
  unfold Reception.finish
  split_ifs
  · exact h
  · exact ⟨h.queued.marked s.receive.ended true, h.size_eq, hpull⟩
  · exact ⟨h.queued, h.size_eq, hpull⟩

theorem Inv.round (h : Inv size s) {i : Nat} {p : Pull} (hp : p ∈ s.pulls) :
    s.roundChecked i p = some (s.round i p) ∧ Inv size (s.round i p) := by
  obtain ⟨hdone, hend⟩ := h.pull p hp
  have hsmall : size < 2 ^ 64 := h.size_eq ▸ h.queued.small
  unfold roundChecked Reception.round
  by_cases hlt : p.done < p.wanted
  · rw [if_pos hlt, if_pos hlt]
    by_cases hwait : s.receive.failed ∨ s.receive.chunks = []
    · rw [if_pos hwait, if_pos hwait]
      exact ⟨rfl, h⟩
    rw [if_neg hwait, if_neg hwait]
    have hlen := s.receive.length_take_le (p.wanted - p.done)
    rw [checkedSub_of_le hdone, Option.bind_some, h.queued.takeChecked_eq, Option.bind_some]
    dsimp only
    rw [checkedAdd64_of_lt (by omega), Option.map_some]
    refine ⟨rfl, h.queued.take _, ?_, ?_⟩
    · show (s.receive.take (p.wanted - p.done)).2.2.frame.size = size
      rw [Receive.take_frame, h.size_eq]
    · intro q hq
      rcases List.mem_or_eq_of_mem_set hq with hold | rfl
      · exact h.pull q hold
      · exact ⟨by dsimp only; omega, hend⟩
  · rw [if_neg hlt, if_neg hlt, checkedAdd64_of_lt (by omega), Option.map_some]
    exact ⟨rfl, h.finish i _⟩

/-- Every event stays in the range of the machine and within the bounds. -/
theorem Inv.step (h : Inv size s) (e : ReceptionEvent) :
    s.stepChecked P e = some (s.step P e) ∧ Inv size (s.step P e) := by
  cases e with
  | frame f =>
    obtain ⟨hchecked, hqueued⟩ := h.queued.handle f (P := P)
    refine ⟨?_, hqueued, ?_, h.pull⟩
    · rw [stepChecked, hchecked]
      rfl
    · exact (congrArg Frame.size (Receive.handle_cases P s.receive f).1).trans h.size_eq
  | release => exact ⟨rfl, h.queued.marked s.receive.ended true, h.size_eq, h.pull⟩
  | read len =>
    have hle := h.queued.consumed_le.trans h.queued.received_le
    unfold stepChecked Reception.step
    dsimp only
    split_ifs
    · exact ⟨rfl, h⟩
    · rw [checkedSub_of_le hle]
      refine ⟨rfl, h.queued, h.size_eq, fun p hp => ?_⟩
      rcases List.mem_append.mp hp with hold | hnew
      · exact h.pull p hold
      · rw [List.mem_singleton.mp hnew, ← h.size_eq]
        exact ⟨Nat.zero_le _, by dsimp only; omega⟩
  | round i =>
    unfold stepChecked Reception.step
    dsimp only
    cases hp : s.pulls[i]? with
    | none => exact ⟨rfl, h⟩
    | some p => exact h.round (List.mem_of_getElem? hp)
  | giveUp i =>
    exact ⟨rfl, h.queued, h.size_eq, fun p hp => h.pull p (List.mem_of_mem_eraseIdx hp)⟩

/-- The stream has ended or failed. -/
def Closed (s : Reception) : Prop := s.receive.ended = true ∨ s.receive.failed = true

theorem Closed.finish (h : s.Closed) (i position : Nat) :
    (s.finish i position).Closed ∧
      (s.finish i position).receive.received = s.receive.received := by
  unfold Reception.finish
  split_ifs
  · exact ⟨h, rfl⟩
  · exact ⟨.inr rfl, rfl⟩
  · exact ⟨h, rfl⟩

theorem Closed.round (h : s.Closed) (i : Nat) (p : Pull) :
    (s.round i p).Closed ∧ (s.round i p).receive.received = s.receive.received := by
  obtain ⟨hended, hfailed, hreceived⟩ := s.receive.take_keeps (p.wanted - p.done)
  unfold Reception.round
  split_ifs
  · exact ⟨h, rfl⟩
  · exact ⟨h.imp hended.trans hfailed.trans, hreceived⟩
  · exact h.finish i _

/-- A closed stream stays closed and receives nothing more. -/
theorem Closed.step (h : s.Closed) (e : ReceptionEvent) :
    (s.step P e).Closed ∧ (s.step P e).receive.received = s.receive.received := by
  cases e with
  | frame f => exact Receive.handle_closed h f
  | release => exact ⟨.inr rfl, rfl⟩
  | read len =>
    unfold Reception.step
    dsimp only
    split_ifs
    · exact ⟨h, rfl⟩
    · exact ⟨h, rfl⟩
  | round i =>
    unfold Reception.step
    dsimp only
    cases s.pulls[i]? with
    | none => exact ⟨h, rfl⟩
    | some p => exact h.round i p
  | giveUp i => exact ⟨h, rfl⟩

theorem closed_run (h : s.Closed) (es : List ReceptionEvent) :
    (run (step P) s es).Closed ∧
      (run (step P) s es).receive.received = s.receive.received := by
  induction es generalizing s with
  | nil => exact ⟨h, rfl⟩
  | cons e es ih =>
    obtain ⟨hclosed, hreceived⟩ := h.step e (P := P)
    exact (ih hclosed).imp id fun hrest => hrest.trans hreceived

/-- The bounds hold along every run, which the arithmetic of the machine takes as well. -/
theorem inv_run (h : Inv size s) (es : List ReceptionEvent) :
    es.foldlM (stepChecked P) s = some (run (step P) s es) ∧ Inv size (run (step P) s es) := by
  induction es generalizing s with
  | nil => exact ⟨rfl, h⟩
  | cons e es ih =>
    obtain ⟨hchecked, hnext⟩ := h.step e (P := P)
    obtain ⟨hrest, hinv⟩ := ih hnext
    rw [List.foldlM_cons, hchecked, run_cons]
    exact ⟨hrest, hinv⟩

/-- Whatever frames the peer of a stream sends, between whatever reads: no number leaves its
range, the stream stays within its bounds, and once it has ended or failed it accepts no frame
and receives nothing more. -/
theorem receive_bounded (P : Platform) {request : Frame} (hsize : request.size < 2 ^ 64)
    (hoffset : request.offset ≤ request.size) (es : List ReceptionEvent) :
    es.foldlM (stepChecked P) (start request) = some (run (step P) (start request) es) ∧
      (run (step P) (start request) es).receive.Bounded ∧
      ((run (step P) (start request) es).Closed →
        (∀ f, ∃ e, (run (step P) (start request) es).receive.accept P f = .error e) ∧
        ∀ later, (run (step P) (start request) (es ++ later)).Closed ∧
          (run (step P) (start request) (es ++ later)).receive.received =
            (run (step P) (start request) es).receive.received) := by
  have hstart : Inv request.size (start request) :=
    ⟨Receive.queued_new hsize hoffset, rfl, nofun⟩
  obtain ⟨hchecked, hinv⟩ := inv_run hstart es (P := P)
  refine ⟨hchecked, hinv.queued.toBounded, fun hclosed => ⟨fun f => ?_, fun later => ?_⟩⟩
  · exact ⟨_, Receive.accept_closed hclosed f⟩
  · rw [run_append]
    exact closed_run hclosed later

/-- Two bytes in one block, read by two reads. -/
theorem receive_bounded_sample :
    (run (step .posix) (start { size := 2 })
      [.frame { kind := .block, size := 2, data := [1, 2] }, .read 1, .round 0, .read 2,
        .round 1]).receive.Bounded :=
  (receive_bounded .posix (show ({ size := 2 } : Frame).size < 2 ^ 64 by decide) (by decide) _).2.1

end Reception

end MDesk.Clipboard
