import MDesk.Server.OutputBuffer
import MDesk.Transfer.Path

/-!
# A terminal session

A shell behind a pseudo terminal, with one thread that writes to it and one that reads from it.
Both hang on channels of limited size: what the peer types waits for the writer, what the shell
prints is dropped where the service has not taken the earlier output.
-/

namespace MDesk

open Core

/-- `CHANNEL_BUFFER_SIZE`. -/
def channelBufferSize : Nat := 100

/-- `COMPRESS_THRESHOLD`. -/
def compressThreshold : Nat := 512

/-- `TerminalData`. -/
structure TerminalData where
  terminalId : Int
  data : Bytes
  compressed : Bool := false
  deriving DecidableEq, Repr

/-- `TerminalResponse`. -/
inductive TerminalResponse where
  | opened (terminalId : Int) (success : Bool) (message : String) (pid : Nat)
      (serviceId : String) (persistentSessions : List Int)
  | data (data : TerminalData)
  | closed (terminalId exitCode : Int)
  | error (message : String)
  deriving DecidableEq, Repr

/-- The threads of a session. The writer starts with a carriage return. -/
inductive TerminalThread where
  | starting
  | running
  | finished
  deriving DecidableEq, Repr

/-- A session: `input` and `output` are what waits in the channels, nothing once the session has
dropped its end. A shell is known by its number. What has been typed, written to the terminal and
printed is noted, the printed chunks with the number of chunks that were waiting, and what the
peer has been told of the output. -/
structure TerminalSession where
  child : Option Nat := none
  input : Option (List Bytes) := none
  output : Option (List Bytes) := none
  exiting : Bool := false
  reader : TerminalThread := .running
  writer : TerminalThread := .starting
  outputBuffer : Except OutputBuffer.TrimFault OutputBuffer := .ok .new
  pid : Nat := 0
  rows : Nat
  cols : Nat
  closedMessageSent : Bool := false
  isOpened : Bool := false
  typed : List Bytes := []
  written : List Bytes := []
  printed : List (Bytes × Nat) := []
  told : List TerminalResponse := []

/-- What comes of a read from the terminal. -/
inductive TerminalRead where
  | chunk (data : Bytes)
  | eof
  | wouldBlock
  | failed
  deriving DecidableEq, Repr

/-- How much the writer still writes when a session is stopped: its carriage return, if it has
not started, and the front of what waits. -/
structure TerminalFlush where
  returned : Bool := true
  chunks : Nat := 0
  deriving DecidableEq, Repr

/-- What the writer still writes: a last newline follows what waits. -/
def TerminalFlush.written (flush : TerminalFlush) :
    Option (List Bytes) → TerminalThread → List Bytes
  | some waiting, .running => (waiting ++ [[0x0d, 0x0a]]).take flush.chunks
  | some waiting, .starting =>
    (if flush.returned then [[0x0d]] else []) ++ (waiting ++ [[0x0d, 0x0a]]).take flush.chunks
  | some _, .finished => []
  | none, _ => []

namespace TerminalSession

variable (P : Platform)

/-- A session whose threads have been started. -/
def opened (child pid rows cols : Nat) : TerminalSession :=
  { child := some child, input := some [], output := some [], pid, rows, cols, isOpened := true }

/-- A round of the reader thread. -/
def readerStep (s : TerminalSession) (read : TerminalRead) : TerminalSession :=
  if s.reader = .finished then s
  else
    match read with
    | .eof | .failed => { s with reader := .finished }
    | .wouldBlock => if s.exiting then { s with reader := .finished } else s
    | .chunk data =>
      if s.exiting then { s with reader := .finished }
      else
        match s.output with
        | none => { s with reader := .finished }
        | some waiting =>
          { s with
            output := some (if waiting.length < channelBufferSize then waiting ++ [data]
              else waiting)
            printed := s.printed ++ [(data, waiting.length)] }

/-- A round of the writer thread; `ok` tells whether the terminal takes the bytes. -/
def writerStep (s : TerminalSession) (ok : Bool) : TerminalSession :=
  match s.writer with
  | .finished => s
  | .starting =>
    { s with writer := .running, written := s.written ++ if ok then [[0x0d]] else [] }
  | .running =>
    match s.input with
    | none => { s with writer := .finished }
    | some [] => s
    | some (data :: waiting) =>
      if ok then { s with input := some waiting, written := s.written ++ [data] }
      else { s with input := some waiting, writer := .finished }

/-- The send of `handle_data`, which waits while the channel is full and fails when there is no
writer any more. -/
def sendInput (s : TerminalSession) (data : Bytes) : TerminalSession :=
  match s.input with
  | none => s
  | some waiting =>
    if s.writer = .finished then s
    else { s with input := some (waiting ++ [data]), typed := s.typed ++ [data] }

/-- A send finds room. -/
def Accepts (s : TerminalSession) : Prop :=
  ∀ waiting ∈ s.input, s.writer = .finished ∨ waiting.length < channelBufferSize

instance (s : TerminalSession) : Decidable s.Accepts :=
  inferInstanceAs (Decidable (∀ waiting ∈ s.input, _ ∨ _))

/-- `stop`, behind which the threads have ended. The shell is left to the caller. -/
def stop (s : TerminalSession) (flush : TerminalFlush) : TerminalSession :=
  { s with
    isOpened := false
    exiting := true
    input := none
    output := none
    reader := .finished
    writer := .finished
    child := none
    written := s.written ++ flush.written s.input s.writer }

/-- The message for a chunk of output. -/
def respond (terminalId : Int) (data : Bytes) : TerminalResponse :=
  if compressThreshold < data.length then
    let compressed := P.compress data
    if compressed.length < data.length then
      .data { terminalId, data := compressed, compressed := true }
    else .data { terminalId, data }
  else .data { terminalId, data }

/-- The reader has ended, and the peer has not been told. -/
def closes (s : TerminalSession) : Bool := !s.closedMessageSent && s.reader == .finished

/-- The first loop of `read_outputs`, over a session whose lock is free. -/
def readOutput (terminalId : Int) (s : TerminalSession) : TerminalSession :=
  let s := { s with closedMessageSent := s.closedMessageSent || s.closes }
  if ¬ s.isOpened then s
  else
    let received := s.output.getD []
    { s with
      output := s.output.map fun _ => []
      outputBuffer := received.foldl OutputBuffer.call s.outputBuffer
      told := s.told ++ received.map (respond P terminalId) }

/-- The second loop of `read_outputs`, over a session that is closed. `status` is what `try_wait`
gives. -/
def closeOutput (terminalId : Int) (status : Option Int) (s : TerminalSession) : TerminalSession :=
  let exitCode := (s.child.bind fun _ => status).getD 0
  { s with child := none, told := s.told ++ [.closed terminalId exitCode] }

/-- Both loops. -/
def pass (terminalId : Int) (locked : Bool) (status : Option Int) (s : TerminalSession) :
    TerminalSession :=
  if locked then s
  else if s.closes then closeOutput terminalId status (readOutput P terminalId s)
  else readOutput P terminalId s

/-! ## What has become of input and output -/

/-- The chunk that a message carries. -/
def payload : TerminalResponse → Option Bytes
  | .data d => some (if d.compressed then P.decompress d.data else d.data)
  | _ => none

/-- The chunks that the peer has been given. -/
def delivered (s : TerminalSession) : List Bytes := s.told.filterMap (payload P)

/-- The chunks that the channel has taken. -/
def accepted (s : TerminalSession) : List Bytes :=
  (s.printed.filter fun chunk => chunk.2 < channelBufferSize).map Prod.fst

/-- A message that a terminal is closed. -/
def isClosed : TerminalResponse → Bool
  | .closed _ _ => true
  | _ => false

/-- What holds of a session at any time: the terminal has got what was typed from its beginning
on, behind at most a carriage return and before at most a newline; the peer has been given what
the channel has taken from its beginning on, the buffer too; and it has been told once at most
that the terminal is closed. -/
structure Faithful (s : TerminalSession) : Prop where
  written : ∃ start, start <+: [[0x0d]] ∧ s.written <+: start ++ s.typed ++ [[0x0d, 0x0a]]
  delivered : s.delivered P <+: s.accepted
  buffered : s.outputBuffer = run OutputBuffer.call (.ok .new) (s.delivered P)
  closed : s.told.countP isClosed ≤ 1

/-- The way of the input of a session that has not been stopped. -/
inductive TypedWay (s : TerminalSession) : Prop where
  | starting (hw : s.writer = .starting) (hwritten : s.written = [])
      (hinput : s.input = some s.typed)
  | running (start waiting : List Bytes) (hw : s.writer = .running) (hstart : start <+: [[0x0d]])
      (hinput : s.input = some waiting) (hall : s.written ++ waiting = start ++ s.typed)
  | failed (start : List Bytes) (hw : s.writer = .finished) (hstart : start <+: [[0x0d]])
      (hfront : s.written <+: start ++ s.typed)

/-- What holds of a session that has not been stopped: what has not been written waits, unless
the writer has failed, what has not been delivered waits, and neither channel is too full. -/
structure Live (s : TerminalSession) : Prop where
  typed : s.TypedWay
  room : ∀ waiting ∈ s.input, waiting.length ≤ channelBufferSize
  printed : ∃ waiting, s.output = some waiting ∧ waiting.length ≤ channelBufferSize ∧
    s.delivered P ++ waiting = s.accepted
  buffered : s.outputBuffer = run OutputBuffer.call (.ok .new) (s.delivered P)

/-- The peer has been told that the terminal is closed if it says so. -/
def Announced (s : TerminalSession) : Prop :=
  s.told.countP isClosed = if s.closedMessageSent then 1 else 0

variable {P} {s : TerminalSession}

theorem live_opened (child pid rows cols : Nat) : (opened child pid rows cols).Live P where
  typed := .starting rfl rfl rfl
  room waiting h := by
    cases h
    exact Nat.zero_le _
  printed := ⟨[], rfl, Nat.zero_le _, rfl⟩
  buffered := rfl

/-- A live session is faithful. -/
theorem Live.faithful (h : s.Live P) (hclosed : s.Announced) : s.Faithful P := by
  refine ⟨?_, ?_, h.buffered, ?_⟩
  · rcases h.typed with ⟨-, hwritten, -⟩ | ⟨start, waiting, -, hstart, -, hall⟩ |
      ⟨start, -, hstart, hfront⟩
    · exact ⟨[], List.nil_prefix, hwritten ▸ List.nil_prefix⟩
    · refine ⟨start, hstart, ?_⟩
      rw [← hall, List.append_assoc]
      exact List.prefix_append _ _
    · exact ⟨start, hstart, hfront.trans (List.prefix_append _ _)⟩
  · obtain ⟨waiting, -, -, hall⟩ := h.printed
    exact ⟨waiting, hall⟩
  · rw [hclosed]
    split_ifs <;> omega

/-- The way of the input depends on its fields only. -/
theorem TypedWay.of_same {s' : TerminalSession} (h : s.TypedWay)
    (hin : (s'.input, s'.writer, s'.typed, s'.written) = (s.input, s.writer, s.typed, s.written)) :
    s'.TypedWay := by
  simp only [Prod.mk.injEq] at hin
  obtain ⟨hinput, hwriter, htyped, hwritten⟩ := hin
  rcases h with ⟨hw, hnone, hin⟩ | ⟨start, waiting, hw, hstart, hin, hall⟩ |
    ⟨start, hw, hstart, hfront⟩
  · exact .starting (hwriter.trans hw) (hwritten.trans hnone) (by rw [hinput, hin, htyped])
  · exact .running start waiting (hwriter.trans hw) hstart (hinput.trans hin)
      (by rw [hwritten, htyped, hall])
  · exact .failed start (hwriter.trans hw) hstart (by rw [hwritten, htyped]; exact hfront)

/-- Fields besides the channels and the notes do not matter. -/
theorem Live.of_same {s' : TerminalSession} (h : s.Live P)
    (hin : (s'.input, s'.writer, s'.typed, s'.written) = (s.input, s.writer, s.typed, s.written))
    (hout : (s'.output, s'.outputBuffer, s'.printed, s'.told) =
      (s.output, s.outputBuffer, s.printed, s.told)) : s'.Live P := by
  refine ⟨h.typed.of_same hin, ?_, ?_, ?_⟩
  all_goals simp only [Prod.mk.injEq] at hin hout
  · rw [hin.1]
    exact h.room
  · unfold delivered accepted
    rw [hout.1, hout.2.2.1, hout.2.2.2]
    exact h.printed
  · unfold delivered
    rw [hout.2.1, hout.2.2.2]
    exact h.buffered

/-- A chunk that the reader has got goes into the channel, or is dropped. -/
theorem accepted_chunk (s : TerminalSession) (data : Bytes) (waiting : Nat) :
    accepted { s with printed := s.printed ++ [(data, waiting)] } =
      s.accepted ++ if waiting < channelBufferSize then [data] else [] := by
  unfold accepted
  rw [List.filter_append, List.map_append, List.filter_singleton]
  congr 1
  by_cases hroom : waiting < channelBufferSize <;> simp [hroom]

theorem Live.readerStep (h : s.Live P) (read : TerminalRead) : (s.readerStep read).Live P := by
  unfold TerminalSession.readerStep
  by_cases hfinished : s.reader = .finished
  · rw [if_pos hfinished]
    exact h
  rw [if_neg hfinished]
  cases read with
  | eof => exact h.of_same rfl rfl
  | failed => exact h.of_same rfl rfl
  | wouldBlock =>
    dsimp only
    split_ifs
    · exact h.of_same rfl rfl
    · exact h
  | chunk data =>
    dsimp only
    split_ifs
    · exact h.of_same rfl rfl
    · obtain ⟨waiting, hwaiting, hroom, hall⟩ := h.printed
      rw [hwaiting]
      refine ⟨h.typed.of_same rfl, h.room, ⟨_, rfl, ?_, ?_⟩, h.buffered⟩
      · split_ifs with hlt
        · rw [List.length_append, List.length_singleton]
          exact hlt
        · exact hroom
      · refine Eq.trans ?_ (s.accepted_chunk data waiting.length).symm
        rw [← hall]
        split_ifs
        · exact (List.append_assoc _ _ _).symm
        · exact (List.append_nil _).symm

theorem Live.writerStep (h : s.Live P) (ok : Bool) : (s.writerStep ok).Live P := by
  unfold TerminalSession.writerStep
  rcases h.typed with ⟨hw, hnone, hin⟩ | ⟨start, waiting, hw, hstart, hin, hall⟩ |
    ⟨start, hw, hstart, hfront⟩
  · rw [hw]
    refine ⟨?_, h.room, h.printed, h.buffered⟩
    refine .running (if ok then [[0x0d]] else []) s.typed rfl ?_ hin ?_
    · split_ifs
      · exact List.prefix_rfl
      · exact List.nil_prefix
    · dsimp only
      rw [hnone, List.nil_append]
  · rw [hw, hin]
    cases waiting with
    | nil => exact h
    | cons data waiting =>
      have hroom : waiting.length ≤ channelBufferSize := by
        have hfull := h.room _ hin
        rw [List.length_cons] at hfull
        omega
      dsimp only
      split_ifs
      · refine ⟨?_, fun w hwait => ?_, h.printed, h.buffered⟩
        · refine .running start waiting rfl hstart rfl ?_
          rw [← hall, List.append_assoc, List.singleton_append]
        · cases hwait
          exact hroom
      · refine ⟨?_, fun w hwait => ?_, h.printed, h.buffered⟩
        · exact .failed start rfl hstart (hall ▸ List.prefix_append _ _)
        · cases hwait
          exact hroom
  · rw [hw]
    exact h

theorem Live.sendInput (h : s.Live P) (data : Bytes) (hroom : s.Accepts) :
    (s.sendInput data).Live P := by
  unfold TerminalSession.sendInput
  cases hinput : s.input with
  | none => exact h
  | some waiting =>
    dsimp only
    split_ifs with hw
    · exact h
    · refine ⟨?_, fun w hwait => ?_, h.printed, h.buffered⟩
      · rcases h.typed with ⟨hstarting, hnone, hin⟩ |
          ⟨start, waiting', hrunning, hstart, hin, hall⟩ | ⟨start, hfinished, -, -⟩
        · rw [hinput, Option.some.injEq] at hin
          exact .starting hstarting hnone (by rw [hin])
        · rw [hinput, Option.some.injEq] at hin
          subst hin
          refine .running start _ hrunning hstart rfl ?_
          dsimp only
          rw [← List.append_assoc, hall, List.append_assoc]
        · exact absurd hfinished hw
      · cases hwait
        rcases hroom waiting hinput with hfinished | hlt
        · exact absurd hfinished hw
        · rw [List.length_append, List.length_singleton]
          exact hlt

/-- A message carries the chunk it was made for. -/
theorem payload_respond (hcompress : ∀ data, P.decompress (P.compress data) = data)
    (terminalId : Int) (data : Bytes) : payload P (respond P terminalId data) = some data := by
  unfold respond
  dsimp only
  split_ifs
  · exact congrArg some (hcompress data)
  · rfl
  · rfl

theorem isClosed_respond (terminalId : Int) (data : Bytes) :
    isClosed (respond P terminalId data) = false := by
  unfold respond
  dsimp only
  split_ifs <;> rfl

/-- The output of an open session is taken. -/
theorem readOutput_opened (terminalId : Int) (h : s.isOpened = true) :
    s.readOutput P terminalId = { s with
      closedMessageSent := s.closedMessageSent || s.closes
      output := s.output.map fun _ => []
      outputBuffer := (s.output.getD []).foldl OutputBuffer.call s.outputBuffer
      told := s.told ++ (s.output.getD []).map (respond P terminalId) } := by
  unfold readOutput
  exact if_neg (not_not.mpr h)

/-- A session that is not open is skipped. -/
theorem readOutput_skipped (terminalId : Int) (h : ¬ s.isOpened = true) :
    s.readOutput P terminalId =
      { s with closedMessageSent := s.closedMessageSent || s.closes } := by
  unfold readOutput
  exact if_pos h

/-- Taking the output, and the buffer gets what the peer gets. -/
theorem Live.readOutput (hcompress : ∀ data, P.decompress (P.compress data) = data)
    (h : s.Live P) (terminalId : Int) : (s.readOutput P terminalId).Live P := by
  by_cases hopened : s.isOpened = true
  · obtain ⟨waiting, hwaiting, hroom, hall⟩ := h.printed
    have hdelivered : (s.readOutput P terminalId).delivered P = s.delivered P ++ waiting := by
      have hpayload : payload P ∘ respond P terminalId = some :=
        funext fun data => payload_respond hcompress terminalId data
      rw [readOutput_opened terminalId hopened, hwaiting, Option.getD_some]
      unfold delivered
      rw [List.filterMap_append, List.filterMap_map, hpayload, List.filterMap_some]
    refine ⟨?_, ?_, ⟨[], ?_, Nat.zero_le _, ?_⟩, ?_⟩
    · rw [readOutput_opened terminalId hopened]
      exact h.typed.of_same rfl
    · rw [readOutput_opened terminalId hopened]
      exact h.room
    · rw [readOutput_opened terminalId hopened, hwaiting]
      rfl
    · rw [hdelivered, List.append_nil, hall, readOutput_opened terminalId hopened]
      rfl
    · rw [hdelivered, run_append, ← h.buffered, readOutput_opened terminalId hopened, hwaiting]
      rfl
  · rw [readOutput_skipped terminalId hopened]
    exact h.of_same rfl rfl

/-- The message that a terminal is closed carries no chunk. -/
theorem Live.closeOutput (h : s.Live P) (terminalId : Int) (status : Option Int) :
    (s.closeOutput terminalId status).Live P := by
  have hdelivered : (s.closeOutput terminalId status).delivered P = s.delivered P := by
    unfold delivered TerminalSession.closeOutput
    rw [List.filterMap_append]
    exact List.append_nil _
  refine ⟨h.typed.of_same rfl, h.room, ?_, ?_⟩
  · rw [hdelivered]
    exact h.printed
  · rw [hdelivered]
    exact h.buffered

theorem Live.pass (hcompress : ∀ data, P.decompress (P.compress data) = data) (h : s.Live P)
    (terminalId : Int) (locked : Bool) (status : Option Int) :
    (s.pass P terminalId locked status).Live P := by
  unfold TerminalSession.pass
  split_ifs
  · exact h
  · exact (h.readOutput hcompress terminalId).closeOutput terminalId status
  · exact h.readOutput hcompress terminalId

/-- Output does not say that a terminal is closed. -/
theorem countP_readOutput (terminalId : Int) (s : TerminalSession) :
    (s.readOutput P terminalId).told.countP isClosed = s.told.countP isClosed := by
  by_cases hopened : s.isOpened = true
  · rw [readOutput_opened terminalId hopened, List.countP_append]
    have hnone : ((s.output.getD []).map (respond P terminalId)).countP isClosed = 0 := by
      rw [List.countP_eq_zero]
      intro r hr
      obtain ⟨data, -, rfl⟩ := List.mem_map.mp hr
      rw [isClosed_respond]
      exact Bool.false_ne_true
    rw [hnone, Nat.add_zero]
  · rw [readOutput_skipped terminalId hopened]

theorem closedMessageSent_readOutput (terminalId : Int) (s : TerminalSession) :
    (s.readOutput P terminalId).closedMessageSent = (s.closedMessageSent || s.closes) := by
  by_cases hopened : s.isOpened = true
  · rw [readOutput_opened terminalId hopened]
  · rw [readOutput_skipped terminalId hopened]

/-- The peer is told once. -/
theorem Announced.pass (h : s.Announced) (terminalId : Int) (locked : Bool) (status : Option Int) :
    (s.pass P terminalId locked status).Announced := by
  have hcount := countP_readOutput (P := P) terminalId s
  have hsent := closedMessageSent_readOutput (P := P) terminalId s
  unfold Announced at h
  unfold TerminalSession.pass
  split_ifs with hlocked hcloses
  · exact h
  · have hopen : s.closedMessageSent = false := by
      unfold closes at hcloses
      simp at hcloses
      exact hcloses.1
    unfold Announced TerminalSession.closeOutput
    dsimp only
    rw [List.countP_append, hcount, h, hsent, hcloses, hopen]
    rfl
  · unfold Announced
    rw [hcount, h, hsent]
    simp [hcloses]

/-- A stopped session leaves a faithful account behind. -/
theorem Live.stop (h : s.Live P) (hclosed : s.told.countP isClosed ≤ 1) (flush : TerminalFlush) :
    (s.stop flush).Faithful P := by
  refine ⟨?_, ?_, h.buffered, hclosed⟩
  · unfold TerminalSession.stop
    dsimp only
    rcases h.typed with ⟨hw, hnone, hin⟩ | ⟨start, waiting, hw, hstart, hin, hall⟩ |
      ⟨start, hw, hstart, hfront⟩
    · rw [hw, hin, hnone, List.nil_append]
      refine ⟨if flush.returned then [[0x0d]] else [], ?_, ?_⟩
      · split_ifs
        · exact List.prefix_rfl
        · exact List.nil_prefix
      · rw [List.append_assoc, TerminalFlush.written, List.prefix_append_right_inj]
        exact List.take_prefix _ _
    · rw [hw, hin, TerminalFlush.written]
      refine ⟨start, hstart, ?_⟩
      rw [← hall, List.append_assoc, List.prefix_append_right_inj]
      exact List.take_prefix _ _
    · rw [hw]
      have hnil : flush.written s.input .finished = [] := by
        cases s.input <;> rfl
      refine ⟨start, hstart, ?_⟩
      rw [hnil, List.append_nil]
      exact hfront.trans (List.prefix_append _ _)
  · obtain ⟨waiting, -, -, hall⟩ := h.printed
    exact ⟨waiting, hall⟩

end TerminalSession

end MDesk
