import MDesk.Clipboard.Frame
import MDesk.Transfer.Read

/-!
# Streams of clipboard files

The two ends of a stream: the chunks a reader has not taken yet, and the window of the
thread that sends the file. A block is sent when it fits into the window; the reader
acknowledges what it took each time it has emptied a chunk.
-/

namespace MDesk.Clipboard

/-- `BLOCK_BYTES`. -/
def blockBytes : Nat := 128 * 1024

/-- `WINDOW_BYTES`. -/
def windowBytes : Nat := 8 * blockBytes

/-- The length of the block at an offset. -/
def needed (size offset : Nat) : Nat := min (size - offset) blockBytes

/-- The frame is about the file of a request. -/
def Frame.About (f request : Frame) : Prop :=
  f.generation = request.generation ∧ f.index = request.index ∧ f.size = request.size

instance (f request : Frame) : Decidable (f.About request) :=
  inferInstanceAs (Decidable (_ ∧ _))

variable (P : Platform)

/-- `Receive`. -/
structure Receive where
  frame : Frame
  consumed : Nat
  received : Nat
  chunks : List Bytes := []
  front : Nat := 0
  ended : Bool := false
  failed : Bool := false
  deriving DecidableEq, Repr

namespace Receive

/-- `Receive::new`. -/
def new (frame : Frame) : Receive := { frame, consumed := frame.offset, received := frame.offset }

/-- The data of a block, decompressed. -/
def blockData (f : Frame) : Except String Bytes :=
  if f.data = [] ∨ blockBytes < f.data.length then .error "invalid clipboard block"
  else if f.compressed then TransferJob.decompressDirectTransferBlock P f.data blockBytes
  else .ok f.data

/-- `accept`. -/
def accept (r : Receive) (f : Frame) : Except String Receive :=
  if ¬ f.About r.frame ∨ f.offset ≠ r.received ∨ r.ended ∨ r.failed then
    .error "clipboard stream response mismatch"
  else
    match f.kind with
    | .block =>
      match blockData P f with
      | .error e => .error e
      | .ok data =>
        if r.frame.size < r.received then .error "clipboard size overflow"
        else if data.length ≠ needed r.frame.size r.received ∨ data = [] ∨
            windowBytes < r.received - r.consumed + data.length then
          .error "clipboard stream exceeds receive window or declared size"
        else .ok { r with received := r.received + data.length, chunks := r.chunks ++ [data] }
    | .end =>
      if f.data = [] ∧ ¬ f.compressed ∧ r.received = r.frame.size then .ok { r with ended := true }
      else .error "invalid clipboard stream termination"
    | _ => .error "invalid clipboard stream termination"

/-- The part of `handle` for a stream that is received. -/
def handle (r : Receive) (f : Frame) : Receive :=
  if f.About r.frame then
    match r.accept P f with
    | .error _ => { r with failed := true }
    | .ok r => r
  else r

/-- The acknowledgement of what was consumed. -/
def credit (r : Receive) : Frame := { r.frame with kind := .credit, offset := r.consumed }

/-- One round of the loop of `read`, which takes from the first chunk: the bytes, the
acknowledgement when the chunk is exhausted, and the stream behind it. -/
def take (r : Receive) (want : Nat) : Bytes × Option Frame × Receive :=
  match r.chunks with
  | [] => ([], none, r)
  | front :: chunks =>
    let count := min (front.length - r.front) want
    let data := (front.drop r.front).take count
    let r := { r with front := r.front + count, consumed := r.consumed + count }
    if r.front = front.length then (data, some r.credit, { r with chunks, front := 0 })
    else (data, none, r)

end Receive

/-- `SendWindow`. -/
structure SendWindow where
  frame : Frame
  sent : Nat
  acknowledged : Nat
  cancelled : Bool := false
  deriving DecidableEq, Repr

namespace SendWindow

/-- The part of `handle` for a stream that is sent. -/
def handle (w : SendWindow) (f : Frame) : SendWindow :=
  if f.About w.frame then
    if f.kind = .cancel ∨ f.data ≠ [] ∨ f.compressed ∨ f.offset < w.acknowledged ∨
        w.sent < f.offset then
      { w with cancelled := true }
    else { w with acknowledged := f.offset }
  else w

/-- The wait for the window goes on. -/
def Waits (w : SendWindow) (needed : Nat) : Prop :=
  w.cancelled = false ∧ windowBytes < w.sent - w.acknowledged + needed

instance (w : SendWindow) (needed : Nat) : Decidable (w.Waits needed) :=
  inferInstanceAs (Decidable (_ ∧ _))

end SendWindow

/-- `from_clipboard_file` of an open file, of which the handle keeps the path. -/
def fromClipboardFile (path : PathBuf) (contents : Bytes) (offset : Nat) (fileName : String) :
    Except String TransferJob :=
  if contents.length < offset then .error "invalid clipboard file range"
  else .ok {
    type := .generic
    dataSource := .filePath ["clipboard.bin"]
    dataStream := some (.fileStream path offset .read)
    files := [{ name := fileName, size := contents.length }]
    totalSize := contents.length
    finishedSize := offset
    fileConfirmed := true
    enableOverwriteDetection := false }

/-- Where the sending thread is. -/
inductive SendPhase where
  | opening
  | waiting (job : TransferJob)
  | reading (job : TransferJob)
  | counting (job : TransferJob) (block : FileTransferBlock)
  | emitting (job : TransferJob) (block : FileTransferBlock)
  | stopped (failed : Bool)
  deriving DecidableEq, Repr

/-- The thread of `start_send`, at `offset` of the file, with its window. -/
structure Sender where
  frame : Frame
  path : PathBuf
  window : SendWindow
  offset : Nat
  phase : SendPhase := .opening
  deriving DecidableEq, Repr

namespace Sender

/-- `start_send` once the request is known to be for `path`. -/
def start (f : Frame) (path : PathBuf) : Except String Sender :=
  if f.requestId = 0 ∨ f.size < f.offset ∨ f.data ≠ [] ∨ f.compressed then
    .error "invalid stream request"
  else if f.generation = 0 then .error "clipboard source changed or busy"
  else .ok {
    frame := f
    path
    window := { frame := f, sent := f.offset, acknowledged := f.offset }
    offset := f.offset }

/-- The thread ends with an error, which it sends. -/
def fail (s : Sender) : Sender × List Frame :=
  ({ s with phase := .stopped true }, [{ s.frame with kind := .error }])

/-- The length of the next block. -/
def needed (s : Sender) : Nat := Clipboard.needed s.frame.size s.offset

/-- The thread opens the file. -/
def openFile (s : Sender) (fs : Fs) : Sender × List Frame :=
  if s.window.cancelled then s.fail
  else
    match fs.lookup s.path with
    | some (.file contents) =>
      if contents.length ≠ s.frame.size then s.fail
      else
        match fromClipboardFile s.path contents s.frame.offset (s.path.getLast?.getD "") with
        | .error _ => s.fail
        | .ok job => ({ s with phase := .waiting job }, [])
    | _ => s.fail

/-- The thread reads a block, which is as long as it counted on. -/
def readBlock (s : Sender) (fs : Fs) (job : TransferJob) : Sender × List Frame :=
  match job.read P fs with
  | (.ok (some block), job') =>
    if block.data = [] ∨ job'.finishedSize - job.finishedSize ≠ s.needed then s.fail
    else ({ s with phase := .counting job' block }, [])
  | _ => s.fail

/-- One step of the thread, with the frames it sends. -/
def advance (s : Sender) (fs : Fs) : Sender × List Frame :=
  match s.phase with
  | .opening => s.openFile fs
  | .waiting job =>
    if s.offset < s.frame.size then
      if s.window.Waits s.needed then (s, [])
      else if s.window.cancelled then s.fail
      else ({ s with phase := .reading job }, [])
    else
      ({ s with phase := .stopped false }, [{ s.frame with kind := .end, offset := s.offset }])
  | .reading job => s.readBlock P fs job
  | .counting job block =>
    if s.window.cancelled then s.fail
    else
      ({ s with
        phase := .emitting job block
        window := { s.window with sent := s.window.sent + s.needed } }, [])
  | .emitting job block =>
    ({ s with phase := .waiting job, offset := s.offset + s.needed }, [{ s.frame with
      kind := .block
      offset := s.offset
      data := block.data
      compressed := block.compressed }])
  | .stopped _ => (s, [])

/-- The thread waits for the window. -/
def Blocked (s : Sender) : Prop :=
  (∃ job, s.phase = .waiting job) ∧ s.offset < s.frame.size ∧ s.window.Waits s.needed

end Sender

end MDesk.Clipboard
