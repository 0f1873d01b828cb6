import MDesk.Clipboard.FlowControl
import MDesk.Core.Table

/-!
# Random access to clipboard files

The reader of a connection calls `read` at any offset. A call goes on with the stream of
its token when that has come to the offset, and asks for a new one otherwise; frames of
older streams may still arrive, also under an id that is used again.
-/

namespace MDesk.Clipboard

open MDesk.Core

variable (P : Platform)

/-- The arguments of a call of `read`, with the length of its buffer. -/
structure ReadCall where
  generation : Nat
  index : Nat
  size : Nat
  offset : Nat
  len : Nat
  deriving DecidableEq, Repr

/-- The bytes a call waits for. -/
def ReadCall.wanted (call : ReadCall) : Nat := min call.len (call.size - call.offset)

/-- The request for the stream of a call. -/
def ReadCall.request (call : ReadCall) (id : Nat) : Frame where
  kind := .request
  generation := call.generation
  requestId := id
  index := call.index
  offset := call.offset
  size := call.size

/-- A call in its loop, which holds on to its stream. -/
structure Reading where
  call : ReadCall
  token : Nat
  handle : Nat
  output : Bytes := []
  deriving DecidableEq, Repr

/-- The streams of a connection in the order they were made, those that still receive by
their id, the call that is going on, and the results of the calls before. -/
structure Reader where
  streams : List Receive := []
  receiving : Table Nat Nat := ∅
  reading : Option Reading := none
  returned : List (ReadCall × Except String (Bytes × Nat)) := []
  emitted : List Frame := []

/-- What happens to a reader. Sending a frame may fail; `id` is the random id a call draws. -/
inductive ReaderEvent where
  | read (call : ReadCall) (token id : Nat) (sent : Bool)
  | round (sent : Bool)
  | timeout
  | deliver (f : Frame)
  | disconnect
  deriving DecidableEq, Repr

namespace Reader

/-- A stream fails. -/
def failStream (s : Reader) (handle : Nat) : Reader :=
  { s with streams := s.streams.modify handle fun r => { r with failed := true } }

/-- `release`. -/
def release (s : Reader) (id : Nat) : Reader :=
  match s.receiving.get id with
  | none => s
  | some handle =>
    let cancel := (s.streams[handle]?.map fun r =>
      { r.frame with kind := .cancel, offset := r.consumed }).toList
    { s.failStream handle with
      receiving := s.receiving.remove id
      emitted := s.emitted ++ cancel }

/-- The call returns. -/
def returns (s : Reader) (call : ReadCall) (result : Except String (Bytes × Nat)) : Reader :=
  { s with reading := none, returned := s.returned ++ [(call, result)] }

/-- The part of `read` that asks for a new stream; an id in use is drawn again. -/
def openStream (s : Reader) (call : ReadCall) (id : Nat) (sent : Bool) : Reader :=
  if 8 ≤ s.receiving.len then s.returns call (.error "too many clipboard streams")
  else
    let id := max id 1
    if (s.receiving.get id).isSome then s
    else
      let request := call.request id
      let opened := { s with
        streams := s.streams ++ [Receive.new request]
        receiving := s.receiving.insert id s.streams.length }
      if sent then { opened with
        reading := some { call, token := id, handle := s.streams.length }
        emitted := s.emitted ++ [request] }
      else (opened.release id).returns call (.error "send failed")

/-- The stream of a token fits a call. -/
def Fits (r : Receive) (call : ReadCall) : Prop :=
  r.consumed = call.offset ∧ r.frame.generation = call.generation ∧ r.frame.index = call.index ∧
    r.frame.size = call.size

instance (r : Receive) (call : ReadCall) : Decidable (Fits r call) :=
  inferInstanceAs (Decidable (_ ∧ _))

/-- `read` up to its loop. -/
def read (s : Reader) (call : ReadCall) (token id : Nat) (sent : Bool) : Reader :=
  if call.generation = 0 ∨ call.size < call.offset then
    s.returns call (.error "invalid clipboard read")
  else if call.len = 0 ∨ call.offset = call.size then s.returns call (.ok ([], token))
  else
    match s.receiving.get token with
    | none => s.openStream call id sent
    | some handle =>
      match s.streams[handle]? with
      | none => s
      | some r =>
        if Fits r call then { s with reading := some { call, token, handle } }
        else (s.release token).openStream call id sent

/-- The end of `read`: behind the last byte of the file it waits for the end of the stream. -/
def finish (s : Reader) (reading : Reading) (r : Receive) : Reader :=
  if reading.call.offset + reading.output.length = reading.call.size then
    if r.ended = false ∧ r.failed = false then s
    else if r.failed then s.returns reading.call (.error "clipboard stream did not complete")
    else (s.release reading.token).returns reading.call (.ok (reading.output, 0))
  else s.returns reading.call (.ok (reading.output, reading.token))

/-- A round of the loop of `read`, which waits for a chunk. -/
def round (s : Reader) (sent : Bool) : Reader :=
  match s.reading with
  | none => s
  | some reading =>
    match s.streams[reading.handle]? with
    | none => s
    | some r =>
      if reading.output.length < reading.call.wanted then
        if r.chunks = [] ∧ r.failed = false ∧ r.ended = false then s
        else if r.failed ∨ r.chunks = [] then
          s.returns reading.call (.error "clipboard stream interrupted or timed out")
        else
          let (data, credit, r) := r.take (reading.call.wanted - reading.output.length)
          let s := { s with
            streams := s.streams.set reading.handle r
            reading := some { reading with output := reading.output ++ data } }
          match credit with
          | none => s
          | some credit =>
            if sent then { s with emitted := s.emitted ++ [credit] }
            else s.returns reading.call (.error "send failed")
      else s.finish reading r

/-- The part of `handle` for frames of a stream that is received. -/
def deliver (s : Reader) (f : Frame) : Reader :=
  match f.kind with
  | .block | .end | .error =>
    match s.receiving.get f.requestId with
    | none => s
    | some handle => { s with streams := s.streams.modify handle fun r => r.handle P f }
  | _ => s

/-- The part of `disconnect` for the streams that are received. -/
def disconnect (s : Reader) : Reader := s.receiving.keys.foldl release s

/-- The reader behind an event. Calls follow one another. -/
def step (s : Reader) : ReaderEvent → Reader
  | .read call token id sent => if s.reading.isSome then s else s.read call token id sent
  | .round sent => s.round sent
  | .timeout =>
    match s.reading with
    | none => s
    | some reading => s.returns reading.call (.error
        (if reading.output.length < reading.call.wanted then
          "clipboard stream interrupted or timed out"
        else "clipboard stream did not complete"))
  | .deliver f => s.deliver P f
  | .disconnect => s.disconnect

end Reader

/-- The call is about a file. -/
def ReadCall.About (call : ReadCall) (file : Frame) : Prop := (call.request 0).About file

/-- A block of the file carries the bytes at its offset. -/
def Honest (contents : Bytes) (file : Frame) (f : Frame) : Prop :=
  f.About file → f.kind = .block →
    ∀ data, Receive.blockData P f = .ok data → data <+: contents.drop f.offset

/-- A block of a sending thread is honest. -/
theorem IsBlock.honest {contents : Bytes} {request f : Frame} {offset : Nat}
    (h : IsBlock P contents request offset f) (file : Frame) : Honest P contents file f := by
  intro _ _ data hdata
  have hle := (length_block contents offset).le.trans (needed_le _ _)
  rw [h.packed.blockData hle] at hdata
  cases hdata
  rw [h.offset_eq]
  exact List.take_prefix _ _

/-- So are all the frames it sends. -/
theorem Advances.honest {contents : Bytes} {request f : Frame} {s s' : Sender} {frames : List Frame}
    (h : Advances P contents request s s' frames) (file : Frame) (hmem : f ∈ frames) :
    Honest P contents file f := by
  cases h with
  | silent => cases hmem
  | block hf =>
    rw [List.mem_singleton.mp hmem]
    exact hf.honest P file
  | last hf =>
    rw [List.mem_singleton.mp hmem]
    intro _ hkind
    rw [hf.kind] at hkind
    cases hkind

namespace Receive

variable {P} {contents : Bytes} {file f : Frame} {r : Receive}

/-- A frame changes neither what a stream is about nor what was consumed of it. -/
theorem handle_cases (P : Platform) (r : Receive) (f : Frame) :
    (r.handle P f).frame = r.frame ∧ (r.handle P f).consumed = r.consumed ∧
      (r.handle P f = r ∨ r.handle P f = { r with failed := true } ∨
        ∃ r', r.accept P f = .ok r' ∧ r.handle P f = r') := by
  unfold handle
  split_ifs with habout
  · cases haccept : r.accept P f with
    | error e => exact ⟨rfl, rfl, .inr (.inl rfl)⟩
    | ok r' =>
      obtain ⟨-, -, ⟨-, data, -, -, rfl⟩ | ⟨-, rfl⟩⟩ := accept_cases haccept
      · exact ⟨rfl, rfl, .inr (.inr ⟨_, rfl, rfl⟩)⟩
      · exact ⟨rfl, rfl, .inr (.inr ⟨_, rfl, rfl⟩)⟩
  · exact ⟨rfl, rfl, .inl rfl⟩

theorem take_frame (r : Receive) (want : Nat) : (r.take want).2.2.frame = r.frame := by
  unfold take
  split
  · rfl
  · dsimp only
    split_ifs <;> rfl

/-- What a stream stores does not depend on how it ends. -/
theorem Stored.marked (h : r.Stored contents) (ended failed : Bool) :
    { r with ended, failed }.Stored contents := by
  obtain ⟨hle, hle', hbytes, hfront, hzero, hne⟩ := h
  exact ⟨hle, hle', hbytes, hfront, hzero, hne⟩

/-- A stream of the file takes its bytes from honest blocks. -/
theorem Stored.handle (h : r.Stored contents) (habout : r.frame.About file)
    (hf : Honest P contents file f) : (r.handle P f).Stored contents := by
  rcases (handle_cases P r f).2.2 with heq | heq | ⟨r', haccept, heq⟩
  · rw [heq]
    exact h
  · rw [heq]
    exact h.marked r.ended true
  · rw [heq]
    obtain ⟨hfile, hoffset, ⟨hkind, data, hdata, hne, rfl⟩ | ⟨-, rfl⟩⟩ := accept_cases haccept
    · have hfile' : f.About file := ⟨hfile.1.trans habout.1, hfile.2.1.trans habout.2.1,
        hfile.2.2.trans habout.2.2⟩
      exact h.push (hoffset ▸ hf hfile' hkind data hdata) hne
    · exact h.marked true r.failed

end Receive

namespace Reader

/-- The streams of a file store its bytes, the call that goes on has read them up to where
its stream is, and every call that returned has read what it asked for. -/
structure Inv (contents : Bytes) (file : Frame) (s : Reader) : Prop where
  stored : ∀ r ∈ s.streams, r.frame.About file → r.Stored contents
  reading : ∀ reading ∈ s.reading, reading.call.About file →
    reading.output = (contents.drop reading.call.offset).take reading.output.length ∧
      reading.output.length ≤ reading.call.wanted ∧
      ∃ r, s.streams[reading.handle]? = some r ∧ r.frame.About file ∧
        r.consumed = reading.call.offset + reading.output.length
  returned : ∀ call data token, (call, .ok (data, token)) ∈ s.returned → call.About file →
    data = (contents.drop call.offset).take call.wanted

variable {P} {contents : Bytes} {file : Frame} {s : Reader}

/-- Only streams change, and each stays where it is in its file. -/
theorem Inv.modify (h : Inv contents file s) (handle : Nat) {φ : Receive → Receive}
    (hframe : ∀ r, (φ r).frame = r.frame) (hconsumed : ∀ r, (φ r).consumed = r.consumed)
    (hstored : ∀ r, r.frame.About file → r.Stored contents → (φ r).Stored contents) :
    Inv contents file { s with streams := s.streams.modify handle φ } := by
  refine ⟨?_, ?_, h.returned⟩
  · intro r hr habout
    obtain ⟨n, hn, rfl⟩ := List.mem_iff_getElem.mp hr
    rw [List.getElem_modify] at habout ⊢
    rw [List.length_modify] at hn
    have hmem := List.getElem_mem hn
    split_ifs at habout ⊢ with heq
    · rw [hframe] at habout
      exact hstored _ habout (h.stored _ hmem habout)
    · exact h.stored _ hmem habout
  · intro reading hreading habout
    obtain ⟨houtput, hle, r, hr, hfile, hconsumed'⟩ := h.reading reading hreading habout
    refine ⟨houtput, hle, ?_⟩
    by_cases heq : handle = reading.handle
    · refine ⟨φ r, ?_, (hframe r).symm ▸ hfile, (hconsumed r).trans hconsumed'⟩
      rw [heq, List.getElem?_modify_eq, hr]
      rfl
    · refine ⟨r, ?_, hfile, hconsumed'⟩
      show (s.streams.modify handle φ)[reading.handle]? = some r
      rw [List.getElem?_modify, hr]
      exact congrArg some (if_neg heq)

theorem Inv.failStream (h : Inv contents file s) (handle : Nat) :
    Inv contents file (s.failStream handle) := by
  exact h.modify handle (fun _ => rfl) (fun _ => rfl) fun r _ hstored => hstored.marked r.ended true

theorem Inv.release (h : Inv contents file s) (id : Nat) : Inv contents file (s.release id) := by
  unfold Reader.release
  cases s.receiving.get id with
  | none => exact h
  | some handle =>
    obtain ⟨hstored, hreading, hreturned⟩ := h.failStream handle
    exact ⟨hstored, hreading, hreturned⟩

/-- A call returns what it asked for, or an error. -/
theorem Inv.returns (h : Inv contents file s) {call : ReadCall}
    {result : Except String (Bytes × Nat)} (hresult : ∀ data token, result = .ok (data, token) →
      call.About file → data = (contents.drop call.offset).take call.wanted) :
    Inv contents file (s.returns call result) := by
  refine ⟨h.stored, nofun, ?_⟩
  intro call' data token hmem habout
  rcases List.mem_append.mp hmem with hmem | hmem
  · exact h.returned call' data token hmem habout
  · cases List.mem_singleton.mp hmem
    exact hresult data token rfl habout

theorem Inv.fails (h : Inv contents file s) (call : ReadCall) (e : String) :
    Inv contents file (s.returns call (.error e)) := h.returns nofun

/-- A new stream starts at the offset of the call. -/
theorem Inv.openStream (h : Inv contents file s) (hsize : file.size = contents.length)
    {call : ReadCall} (hoffset : call.offset ≤ call.size) (hidle : s.reading = none) (id : Nat)
    (sent : Bool) : Inv contents file (s.openStream call id sent) := by
  unfold Reader.openStream
  dsimp only
  split_ifs
  · exact h.fails call _
  · exact h
  all_goals
    have hstored : ∀ r ∈ s.streams ++ [Receive.new (call.request (max id 1))],
        r.frame.About file → r.Stored contents := by
      intro r hr habout
      rcases List.mem_append.mp hr with hr | hr
      · exact h.stored r hr habout
      · rw [List.mem_singleton.mp hr] at habout ⊢
        refine .new (hoffset.trans (Nat.le_of_eq ?_))
        exact habout.2.2.trans hsize
  · refine ⟨hstored, ?_, h.returned⟩
    intro reading hreading habout
    cases hreading
    refine ⟨rfl, Nat.zero_le _, Receive.new (call.request (max id 1)), ?_, habout, rfl⟩
    exact List.getElem?_concat_length
  · have hopened : Inv contents file { s with
        streams := s.streams ++ [Receive.new (call.request (max id 1))]
        receiving := s.receiving.insert (max id 1) s.streams.length } := by
      refine ⟨hstored, ?_, h.returned⟩
      intro reading hreading
      rw [hidle] at hreading
      cases hreading
    exact (hopened.release _).fails call _

/-- A call goes on with a stream that has come to its offset. -/
theorem Inv.read (h : Inv contents file s) (hsize : file.size = contents.length)
    (hidle : s.reading = none) (call : ReadCall) (token id : Nat) (sent : Bool) :
    Inv contents file (s.read call token id sent) := by
  unfold Reader.read
  split_ifs with hbad hempty
  · exact h.fails call _
  · apply h.returns
    intro data token' hdata _
    cases hdata
    have hzero : call.wanted = 0 := by
      unfold ReadCall.wanted
      omega
    rw [hzero, List.take_zero]
  push Not at hbad
  split
  · exact h.openStream hsize hbad.2 hidle id sent
  · split
    · exact h
    · rename_i handle _ r hr
      split_ifs with hfits
      · refine ⟨h.stored, ?_, h.returned⟩
        intro reading hreading habout
        cases hreading
        obtain ⟨hconsumed, hgeneration, hindex, hfile⟩ := hfits
        refine ⟨rfl, Nat.zero_le _, r, hr, ?_, hconsumed⟩
        exact ⟨hgeneration.trans habout.1, hindex.trans habout.2.1, hfile.trans habout.2.2⟩
      · refine (h.release token).openStream hsize hbad.2 ?_ id sent
        unfold Reader.release
        split <;> exact hidle

/-- The end of a call that has read all it wanted. -/
theorem Inv.finish (h : Inv contents file s) {reading : Reading}
    (hreading : s.reading = some reading)
    (hdone : ¬ reading.output.length < reading.call.wanted) (r : Receive) :
    Inv contents file (s.finish reading r) := by
  have houtput : ∀ token data token', (.ok (reading.output, token) : Except String (Bytes × Nat)) =
      .ok (data, token') → reading.call.About file →
        data = (contents.drop reading.call.offset).take reading.call.wanted := by
    intro token data token' hdata habout
    cases hdata
    obtain ⟨houtput, hle, -⟩ := h.reading reading hreading habout
    rwa [Nat.le_antisymm hle (Nat.not_lt.mp hdone)] at houtput
  unfold Reader.finish
  split_ifs
  · exact h
  · exact h.fails _ _
  · exact (h.release reading.token).returns (houtput 0)
  · exact h.returns (houtput reading.token)

/-- The bytes of a round are the next ones of the file. -/
theorem Inv.taken (h : Inv contents file s) {reading : Reading}
    (hreading : s.reading = some reading)
    {r : Receive} (hr : s.streams[reading.handle]? = some r) (hchunks : r.chunks ≠ [])
    (hless : reading.output.length < reading.call.wanted) :
    Inv contents file { s with
      streams := s.streams.set reading.handle
        (r.take (reading.call.wanted - reading.output.length)).2.2
      reading := some { reading with
        output := reading.output ++
          (r.take (reading.call.wanted - reading.output.length)).1 } } := by
  have hframe : (r.take (reading.call.wanted - reading.output.length)).2.2.frame = r.frame :=
    Receive.take_frame r _
  have htake : r.frame.About file → _ := fun habout =>
    (h.stored r (List.mem_of_getElem? hr) habout).take hchunks (Nat.sub_pos_of_lt hless)
  generalize (r.take (reading.call.wanted - reading.output.length)).1 = data at htake ⊢
  generalize (r.take (reading.call.wanted - reading.output.length)).2.1 = credit at htake
  generalize (r.take (reading.call.wanted - reading.output.length)).2.2 = r' at htake hframe ⊢
  refine ⟨?_, ?_, h.returned⟩
  · intro r'' hr'' habout
    rcases List.mem_or_eq_of_mem_set hr'' with hr'' | rfl
    · exact h.stored r'' hr'' habout
    · exact (htake (hframe ▸ habout)).stored
  · intro reading' hreading' habout
    cases hreading'
    obtain ⟨houtput, hle, r₀, hr₀, hfile, hconsumed⟩ := h.reading reading hreading habout
    rw [hr] at hr₀
    cases hr₀
    have htakes := htake hfile
    have hdata := htakes.data_eq
    have hlen := htakes.data_le
    refine ⟨?_, ?_, r', ?_, hframe ▸ hfile, ?_⟩
    · show reading.output ++ data = _
      rw [List.length_append, List.take_add, List.drop_drop, ← hconsumed, ← hdata, ← houtput]
    · show (reading.output ++ data).length ≤ reading.call.wanted
      rw [List.length_append]
      omega
    · exact List.getElem?_set_self (List.getElem?_eq_some_iff.mp hr).1
    · show r'.consumed = reading.call.offset + (reading.output ++ data).length
      rw [htakes.consumed, hconsumed, List.length_append, Nat.add_assoc]

/-- A round of a call takes the next bytes of the file. -/
theorem Inv.round (h : Inv contents file s) (sent : Bool) : Inv contents file (s.round sent) := by
  unfold Reader.round
  cases hreading : s.reading with
  | none => exact h
  | some reading =>
    dsimp only
    cases hr : s.streams[reading.handle]? with
    | none => exact h
    | some r =>
      dsimp only
      by_cases hless : reading.output.length < reading.call.wanted
      · rw [if_pos hless]
        by_cases hwait : r.chunks = [] ∧ r.failed = false ∧ r.ended = false
        · rw [if_pos hwait]
          exact h
        rw [if_neg hwait]
        by_cases hfailed : r.failed ∨ r.chunks = []
        · rw [if_pos hfailed]
          exact h.fails _ _
        rw [if_neg hfailed]
        push Not at hfailed
        have htaken := h.taken hreading hr hfailed.2 hless
        generalize r.take (reading.call.wanted - reading.output.length) = out at htaken ⊢
        obtain ⟨data, credit, r'⟩ := out
        dsimp only at htaken ⊢
        cases credit with
        | none => exact htaken
        | some credit =>
          dsimp only
          split_ifs
          · exact ⟨htaken.stored, htaken.reading, htaken.returned⟩
          · exact htaken.fails _ _
      · rw [if_neg hless]
        exact h.finish hreading hless r

/-- Frames of the file carry its bytes. -/
theorem Inv.deliver (h : Inv contents file s) {f : Frame} (hf : Honest P contents file f) :
    Inv contents file (s.deliver P f) := by
  unfold Reader.deliver
  split
  any_goals exact h
  all_goals
    split
    · exact h
    · refine h.modify _ (fun r => ?_) (fun r => ?_) fun r habout hstored => ?_
      · exact (Receive.handle_cases P r f).1
      · exact (Receive.handle_cases P r f).2.1
      · exact hstored.handle habout hf

theorem Inv.disconnect (h : Inv contents file s) : Inv contents file s.disconnect := by
  unfold Reader.disconnect
  generalize s.receiving.keys = ids
  induction ids generalizing s with
  | nil => exact h
  | cons id ids ih => exact ih (h.release id)

/-- The blocks that are delivered are honest. -/
def HonestEvent (P : Platform) (contents : Bytes) (file : Frame) : ReaderEvent → Prop
  | .deliver f => Honest P contents file f
  | _ => True

theorem Inv.step (h : Inv contents file s) (hsize : file.size = contents.length) {e : ReaderEvent}
    (he : HonestEvent P contents file e) : Inv contents file (s.step P e) := by
  cases e with
  | read call token id sent =>
    simp only [Reader.step]
    split_ifs with hbusy
    · exact h
    · exact h.read hsize (Option.not_isSome_iff_eq_none.mp hbusy) call token id sent
  | round sent => exact h.round sent
  | timeout =>
    simp only [Reader.step]
    split
    · exact h
    · exact h.fails _ _
  | deliver f => exact h.deliver he
  | disconnect => exact h.disconnect

/-- Every call that returns without an error has read the bytes at its offset, as many as
it asked for and the file has, whatever the calls before it, the chunks, the failures and
the late frames were. -/
theorem read_returns_source (hsize : file.size = contents.length) {es : List ReaderEvent}
    (h : Allowed (Reader.step P) (fun _ => HonestEvent P contents file) {} es) {call : ReadCall}
    {data : Bytes} {token : Nat} (hcall : call.About file)
    (hmem : (call, .ok (data, token)) ∈ (run (Reader.step P) {} es).returned) :
    data = (contents.drop call.offset).take (min call.len (contents.length - call.offset)) := by
  have hinv : Inv contents file (run (Reader.step P) {} es) := by
    refine run_keeps (fun s e hs he => hs.step hsize he) ?_ h
    exact ⟨List.forall_mem_nil _, nofun, nofun⟩
  have hfile : call.size = contents.length := hcall.2.2.trans hsize
  rw [hinv.returned call data token hmem hcall, ReadCall.wanted, hfile]

/-- Two bytes are read from the middle of a file of three, with a late block of another
stream in between. -/
theorem read_returns_source_two :
    let file : Frame := { generation := 7, index := 2, size := 3 }
    let call : ReadCall := { generation := 7, index := 2, size := 3, offset := 1, len := 5 }
    let block : Frame := { file with kind := .block, requestId := 9, offset := 1, data := [2, 3] }
    let late : Frame := { file with kind := .block, requestId := 8, offset := 1, data := [2, 3] }
    let last : Frame := { file with kind := .end, requestId := 9, offset := 3 }
    let es : List ReaderEvent := [.read call 0 9 true, .deliver late, .deliver block, .round true,
      .deliver last, .round true]
    (call, .ok ([2, 3], 0)) ∈ (run (Reader.step .posix) {} es).returned ∧
      ([2, 3] : Bytes) = (([1, 2, 3] : Bytes).drop call.offset).take (min call.len (3 - 1)) := by
  intro file call block late last es
  have hhonest : ∀ f : Frame, f.data = [2, 3] → f.compressed = false → f.offset = 1 →
      Honest .posix [1, 2, 3] file f := by
    intro f hdata hcompressed hoffset _ _ data hblock
    rw [Receive.blockData, hdata, hcompressed] at hblock
    cases hblock
    rw [hoffset]
    exact List.prefix_rfl
  have hallowed : Allowed (Reader.step .posix)
      (fun _ => HonestEvent .posix [1, 2, 3] file) {} es :=
    ⟨trivial, hhonest late rfl rfl rfl, hhonest block rfl rfl rfl, trivial, nofun, trivial, trivial⟩
  have hmem : (call, .ok ([2, 3], 0)) ∈ (run (Reader.step .posix) {} es).returned := by
    decide
  exact ⟨hmem, read_returns_source rfl hallowed ⟨rfl, rfl, rfl⟩ hmem⟩

end Reader

end MDesk.Clipboard
