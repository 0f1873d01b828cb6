import MDesk.Clipboard.StreamBlocks
import MDesk.Core.Run
import MDesk.Core.Window
import Mathlib.Algebra.Order.Group.Nat

/-!
# Flow control of clipboard streams

A sending thread and a receiver, joined by a channel of frames in each direction. While
the file stays as it is the receiver takes every frame, the window is kept, and the sender
never waits for a reader that has nothing left to take.
-/

namespace MDesk.Clipboard

open MDesk.Core

variable (P : Platform)

/-- Both ends of a stream, and the frames on their way. -/
structure Stream where
  sender : Sender
  receiver : Receive
  blocks : List Frame := []
  credits : List Frame := []
  deriving DecidableEq, Repr

/-- A step of the sending thread, the delivery of a frame in either direction, or a round
of a read that wants some bytes. -/
inductive StreamEvent where
  | send
  | deliver
  | read (want : Nat)
  | acknowledge
  deriving DecidableEq, Repr

namespace Stream

/-- The stream behind an event. A read waits until there is a chunk. -/
def step (fs : Fs) (s : Stream) : StreamEvent → Stream
  | .send =>
    let (sender, frames) := s.sender.advance P fs
    { s with sender, blocks := s.blocks ++ frames }
  | .deliver =>
    match s.blocks with
    | [] => s
    | f :: blocks => { s with receiver := s.receiver.handle P f, blocks }
  | .read want =>
    if want = 0 ∨ s.receiver.failed ∨ s.receiver.chunks = [] then s
    else
      let (_, credit, receiver) := s.receiver.take want
      { s with receiver, credits := s.credits ++ credit.toList }
  | .acknowledge =>
    match s.credits with
    | [] => s
    | f :: credits =>
      { s with sender := { s.sender with window := s.sender.window.handle f }, credits }

/-- A stream that was just asked for. -/
def start (sender : Sender) : Stream := { sender, receiver := .new sender.frame }

end Stream

/-- A block of the file. -/
structure IsBlock (contents : Bytes) (request : Frame) (offset : Nat) (f : Frame) : Prop where
  kind : f.kind = .block
  about : f.About request
  offset_eq : f.offset = offset
  packed : Packed P ((contents.drop offset).take blockBytes) f.data f.compressed

/-- The end of the file. -/
structure IsEnd (contents : Bytes) (request : Frame) (f : Frame) : Prop where
  kind : f.kind = .end
  about : f.About request
  offset_eq : f.offset = contents.length
  data : f.data = []
  compressed : f.compressed = false

/-- The thread has sent its last frame. -/
def Sender.closed (s : Sender) : Bool :=
  match s.phase with
  | .stopped _ => true
  | _ => false

/-- The frames from one offset to another, followed by the end when the stream is closed. -/
inductive InFlight (contents : Bytes) (request : Frame) : Nat → List Frame → Nat → Bool → Prop where
  | nil (offset : Nat) : InFlight contents request offset [] offset false
  | last {f : Frame} (h : IsEnd contents request f) :
      InFlight contents request contents.length [f] contents.length true
  | block {offset upto : Nat} {f : Frame} {frames : List Frame} {done : Bool}
      (hlt : offset < contents.length) (h : IsBlock P contents request offset f)
      (next : InFlight contents request (offset + needed contents.length offset) frames upto done) :
      InFlight contents request offset (f :: frames) upto done

variable {P} {fs : Fs} {path : PathBuf} {contents : Bytes} {request f : Frame} {frames : List Frame}
  {offset upto : Nat} {done : Bool}

theorem InFlight.le (h : InFlight P contents request offset frames upto done) : offset ≤ upto := by
  induction h with
  | nil => exact Nat.le_refl _
  | last => exact Nat.le_refl _
  | block hlt h next ih => exact (Nat.le_add_right _ _).trans ih

theorem InFlight.eq_of_nil (h : InFlight P contents request offset [] upto done) :
    offset = upto := by
  cases h
  rfl

/-- Another block is sent. -/
theorem InFlight.snoc_block (h : InFlight P contents request offset frames upto false)
    (hlt : upto < contents.length) (hf : IsBlock P contents request upto f) :
    InFlight P contents request offset (frames ++ [f])
      (upto + needed contents.length upto) false := by
  generalize hclosed : false = done at h
  induction h with
  | nil => exact .block hlt hf (.nil _)
  | last => cases hclosed
  | block hlt' h next ih => exact .block hlt' h (ih hlt hf hclosed)

/-- The end is sent. -/
theorem InFlight.snoc_end (h : InFlight P contents request offset frames contents.length false)
    (hf : IsEnd contents request f) :
    InFlight P contents request offset (frames ++ [f]) contents.length true := by
  generalize hclosed : false = done at h
  generalize hto : contents.length = upto at h
  induction h with
  | nil =>
    rw [← hto]
    exact .last hf
  | last => cases hclosed
  | block hlt' h next ih => exact .block hlt' h (ih hclosed hto)

/-- The phase of a thread that sends the file without an error. -/
def Steady (P : Platform) (path : PathBuf) (contents : Bytes) (s : Sender) : Prop :=
  match s.phase with
  | .opening => s.window.sent = s.offset ∧ s.offset = s.frame.offset
  | .waiting job => s.window.sent = s.offset ∧ ReadsAt path s.offset job
  | .reading job => s.window.sent = s.offset ∧ ReadsAt path s.offset job ∧
      s.offset < contents.length ∧ s.window.sent + s.needed ≤ s.window.acknowledged + windowBytes
  | .counting job block => s.window.sent = s.offset ∧ ReadsAt path (s.offset + s.needed) job ∧
      s.offset < contents.length ∧ s.window.sent + s.needed ≤ s.window.acknowledged + windowBytes ∧
      Packed P ((contents.drop s.offset).take blockBytes) block.data block.compressed
  | .emitting job block => s.window.sent = s.offset + s.needed ∧
      ReadsAt path (s.offset + s.needed) job ∧ s.offset < contents.length ∧
      Packed P ((contents.drop s.offset).take blockBytes) block.data block.compressed
  | .stopped failed => failed = false ∧ s.window.sent = s.offset ∧ s.offset = contents.length

/-- A thread that sends the file. -/
structure Sends (P : Platform) (path : PathBuf) (contents : Bytes) (request : Frame)
    (s : Sender) : Prop where
  frame : s.frame = request
  path_eq : s.path = path
  window : s.window.frame = request
  offset_le : s.offset ≤ contents.length
  cancelled : s.window.cancelled = false
  steady : Steady P path contents s

/-- What a thread does in a step: it sends nothing, the block at its offset or the end. -/
inductive Advances (P : Platform) (contents : Bytes) (request : Frame) (s s' : Sender) :
    List Frame → Prop where
  | silent (hoffset : s'.offset = s.offset) (hclosed : s'.closed = s.closed) :
      Advances P contents request s s' []
  | block {f : Frame} (hf : IsBlock P contents request s.offset f)
    (hlt : s.offset < contents.length)
      (hoffset : s'.offset = s.offset + needed contents.length s.offset)
      (hclosed : s.closed = false) (hclosed' : s'.closed = false) :
      Advances P contents request s s' [f]
  | last {f : Frame} (hf : IsEnd contents request f) (hend : s.offset = contents.length)
      (hoffset : s'.offset = s.offset) (hclosed : s.closed = false) (hclosed' : s'.closed = true) :
      Advances P contents request s s' [f]

/-- A request for a file that is as long as the request says. -/
structure Asks (contents : Bytes) (request : Frame) : Prop where
  size : request.size = contents.length
  lt : contents.length < 2 ^ 64
  offset_le : request.offset ≤ contents.length
  data : request.data = []
  compressed : request.compressed = false

section Steps

variable (hcompress : ∀ data, P.decompress (P.compress data) = data) (hempty : P.decompress [] = [])
  (hfile : fs.lookup path = some (.file contents)) (hrequest : Asks contents request)

include hrequest

theorem Sends.needed_eq {s : Sender} (h : Sends P path contents request s) :
    s.needed = needed contents.length s.offset := by
  rw [Sender.needed, h.frame, hrequest.size]

include hfile

/-- The thread opens the file. -/
theorem Sends.openFile {s : Sender} (h : Sends P path contents request s)
    (hphase : s.phase = .opening) :
    ∃ job, s.openFile fs = ({ s with phase := .waiting job }, []) ∧ ReadsAt path s.offset job := by
  have hsteady := h.steady
  rw [Steady, hphase] at hsteady
  obtain ⟨job, hjob, hreads⟩ := readsAt_fromClipboardFile path hrequest.offset_le
    (path.getLast?.getD "")
  refine ⟨job, ?_, ?_⟩
  · unfold Sender.openFile
    rw [h.cancelled, h.path_eq, hfile, h.frame]
    simp [hrequest.size, hjob]
  · rw [hsteady.2, h.frame]
    exact hreads

include hcompress hempty

/-- The thread reads its next block. -/
theorem Sends.readBlock {s : Sender} {job : TransferJob} (h : Sends P path contents request s)
    (hreads : ReadsAt path s.offset job) (hlt : s.offset < contents.length) :
    ∃ job' block, s.readBlock P fs job = ({ s with phase := .counting job' block }, []) ∧
      ReadsAt path (s.offset + s.needed) job' ∧
      Packed P ((contents.drop s.offset).take blockBytes) block.data block.compressed := by
  obtain ⟨block, job', hread, hpacked, hreads'⟩ :=
    read_block P hcompress hempty hfile hrequest.lt hlt hreads
  rw [← h.needed_eq hrequest] at hreads'
  refine ⟨job', block, ?_, hreads', hpacked⟩
  have hcount : ¬(block.data = [] ∨ job'.finishedSize - job.finishedSize ≠ s.needed) := by
    rw [hreads.finishedSize, hreads'.finishedSize, Nat.add_sub_cancel_left]
    rintro (hnil | hne)
    · exact hpacked.ne_nil hnil
    · exact hne rfl
  unfold Sender.readBlock
  rw [hread]
  exact if_neg hcount

/-- A step of the thread: it stays without an error, counts at most what fits into the
window, and sends the next frame or none. -/
theorem Sends.advance {s : Sender} (h : Sends P path contents request s)
    (hbound : s.window.sent ≤ s.window.acknowledged + windowBytes) :
    Sends P path contents request (s.advance P fs).1 ∧
      Advances P contents request s (s.advance P fs).1 (s.advance P fs).2 ∧
      (s.advance P fs).1.window.acknowledged = s.window.acknowledged ∧
      s.window.sent ≤ (s.advance P fs).1.window.sent ∧
      (s.advance P fs).1.window.sent ≤ s.window.acknowledged + windowBytes := by
  have hsteady := h.steady
  have hneeded := h.needed_eq hrequest
  have hsize : s.frame.size = contents.length := by rw [h.frame, hrequest.size]
  unfold Sender.advance
  cases hphase : s.phase with
  | opening =>
    obtain ⟨job, hopen, hreads⟩ := h.openFile hfile hrequest hphase
    rw [Steady, hphase] at hsteady
    dsimp only
    rw [hopen]
    refine ⟨⟨h.frame, h.path_eq, h.window, h.offset_le, h.cancelled, hsteady.1, hreads⟩, ?_, rfl,
      Nat.le_refl _, hbound⟩
    exact .silent rfl (by simp [Sender.closed, hphase])
  | waiting job =>
    rw [Steady, hphase] at hsteady
    obtain ⟨hsent, hreads⟩ := hsteady
    dsimp only
    by_cases hlt : s.offset < contents.length
    · rw [if_pos (hsize ▸ hlt)]
      by_cases hwaits : s.window.Waits s.needed
      · rw [if_pos hwaits]
        exact ⟨h, .silent rfl rfl, rfl, Nat.le_refl _, hbound⟩
      · rw [if_neg hwaits, if_neg (by rw [h.cancelled]; decide)]
        have hfits : s.window.sent + s.needed ≤ s.window.acknowledged + windowBytes := by
          have hle : ¬ windowBytes < s.window.sent - s.window.acknowledged + s.needed :=
            fun hlt => hwaits ⟨h.cancelled, hlt⟩
          omega
        refine ⟨⟨h.frame, h.path_eq, h.window, h.offset_le, h.cancelled, hsent, hreads, hlt, hfits⟩,
          ?_, rfl,
          Nat.le_refl _, hbound⟩
        exact .silent rfl (by simp [Sender.closed, hphase])
    · rw [if_neg (hsize ▸ hlt)]
      have hend : s.offset = contents.length := Nat.le_antisymm h.offset_le (Nat.not_lt.mp hlt)
      refine ⟨⟨h.frame, h.path_eq, h.window, h.offset_le, h.cancelled, rfl, hsent, hend⟩, ?_, rfl,
        Nat.le_refl _, hbound⟩
      rw [h.frame]
      refine .last ⟨rfl, ⟨rfl, rfl, rfl⟩, hend, hrequest.data, hrequest.compressed⟩ hend rfl ?_ rfl
      simp [Sender.closed, hphase]
  | reading job =>
    rw [Steady, hphase] at hsteady
    obtain ⟨hsent, hreads, hlt, hfits⟩ := hsteady
    obtain ⟨job', block, hread, hreads', hpacked⟩ :=
      h.readBlock hcompress hempty hfile hrequest hreads hlt
    dsimp only
    rw [hread]
    refine ⟨⟨h.frame, h.path_eq, h.window, h.offset_le, h.cancelled, hsent, hreads', hlt, hfits,
      hpacked⟩, ?_, rfl, Nat.le_refl _, hbound⟩
    exact .silent rfl (by simp [Sender.closed, hphase])
  | counting job block =>
    rw [Steady, hphase] at hsteady
    obtain ⟨hsent, hreads, hlt, hfits, hpacked⟩ := hsteady
    dsimp only
    rw [if_neg (by rw [h.cancelled]; decide)]
    refine ⟨⟨h.frame, h.path_eq, h.window, h.offset_le, h.cancelled, ?_, hreads, hlt, hpacked⟩,
      ?_, rfl,
      Nat.le_add_right _ _, hfits⟩
    · rw [hsent]
      rfl
    · exact .silent rfl (by simp [Sender.closed, hphase])
  | emitting job block =>
    rw [Steady, hphase] at hsteady
    obtain ⟨hsent, hreads, hlt, hpacked⟩ := hsteady
    have hend := add_needed_le hlt.le
    refine ⟨⟨h.frame, h.path_eq, h.window, ?_, h.cancelled, hsent, hreads⟩, ?_, rfl, Nat.le_refl _,
      hbound⟩
    · rw [hneeded]
      exact hend
    · refine .block ⟨rfl, ?_, rfl, hpacked⟩ hlt ?_ ?_ rfl
      · rw [h.frame]
        exact ⟨rfl, rfl, rfl⟩
      · rw [← hneeded]
      · simp [Sender.closed, hphase]
  | stopped failed =>
    exact ⟨h, .silent rfl rfl, rfl, Nat.le_refl _, hbound⟩

end Steps

theorem Sends.offset_le_sent {s : Sender} (h : Sends P path contents request s) :
    s.offset ≤ s.window.sent := by
  have hsteady := h.steady
  unfold Steady at hsteady
  split at hsteady <;> omega

/-- An acknowledgement only makes room. -/
theorem Sends.acknowledge {s : Sender} (h : Sends P path contents request s) {acknowledged : Nat}
    (hle : s.window.acknowledged ≤ acknowledged) :
    Sends P path contents request { s with window := { s.window with acknowledged } } := by
  refine ⟨h.frame, h.path_eq, h.window, h.offset_le, h.cancelled, ?_⟩
  have hsteady := h.steady
  unfold Steady at hsteady ⊢
  cases hphase : s.phase with
  | reading job =>
    rw [hphase] at hsteady
    obtain ⟨hsent, hreads, hlt, hfits⟩ := hsteady
    exact ⟨hsent, hreads, hlt, hfits.trans (Nat.add_le_add_right hle _)⟩
  | counting job block =>
    rw [hphase] at hsteady
    obtain ⟨hsent, hreads, hlt, hfits, hpacked⟩ := hsteady
    exact ⟨hsent, hreads, hlt, hfits.trans (Nat.add_le_add_right hle _), hpacked⟩
  | _ =>
    rw [hphase] at hsteady
    exact hsteady

namespace Stream

/-- Both ends agree on the file, and on what is on its way. -/
structure Inv (P : Platform) (path : PathBuf) (contents : Bytes) (request : Frame) (s : Stream) :
    Prop where
  sends : Sends P path contents request s.sender
  frame : s.receiver.frame = request
  failed : s.receiver.failed = false
  stored : s.receiver.Stored contents
  window : Window windowBytes s.sender.window.acknowledged (s.credits.map Frame.offset)
    s.receiver.consumed s.receiver.received s.sender.window.sent
  credits : ∀ f ∈ s.credits, f = { request with kind := .credit, offset := f.offset }
  settled : s.receiver.chunks = [] →
    ((s.credits.map Frame.offset).getLast?).getD s.sender.window.acknowledged = s.receiver.consumed
  flight : (s.receiver.ended = false ∧
      InFlight P contents request s.receiver.received s.blocks s.sender.offset s.sender.closed) ∨
    (s.receiver.ended = true ∧ s.blocks = [] ∧ s.sender.closed = true)

section Steps

variable {s : Stream} (hrequest : Asks contents request) (h : Inv P path contents request s)

include hrequest h

/-- The receiver takes the next frame: it is the next block of the file, or its end. -/
theorem Inv.accepts {f : Frame} {blocks : List Frame} (hblocks : s.blocks = f :: blocks) :
    (∃ data, s.receiver.accept P f = .ok (s.receiver.push data) ∧
        data = (contents.drop s.receiver.received).take blockBytes ∧
        s.receiver.received < contents.length ∧
        InFlight P contents request (s.receiver.received + data.length) blocks s.sender.offset
          s.sender.closed) ∨
      (s.receiver.accept P f = .ok { s.receiver with ended := true } ∧ blocks = [] ∧
        s.sender.closed = true) := by
  rcases h.flight with ⟨hended, hflight⟩ | ⟨-, hnil, -⟩
  · rw [hblocks] at hflight
    generalize hreceived : s.receiver.received = received at hflight
    generalize hclosed : s.sender.closed = closed at hflight ⊢
    generalize hoffset : s.sender.offset = upto at hflight ⊢
    cases hflight with
    | last hf =>
      refine .inr ⟨?_, rfl, rfl⟩
      exact Receive.accept_end (h.frame ▸ hf.about) (hf.offset_eq.trans hreceived.symm) hended
        h.failed hf.kind hf.data hf.compressed (by rw [hreceived, h.frame, hrequest.size])
    | block hlt hf next =>
      have hlen := length_block contents received
      have hpos := needed_pos hlt
      have hsent := next.le
      refine .inl ⟨_, ?_, rfl, hlt, by rw [hlen]; exact next⟩
      refine Receive.accept_block (h.frame ▸ hf.about) (hf.offset_eq.trans hreceived.symm) hended
        h.failed hf.kind (hf.packed.blockData (hlen.le.trans (needed_le _ _))) ?_ ?_ ?_ ?_
      · rw [hreceived, h.frame, hrequest.size]
        exact hlt.le
      · rw [hlen, hreceived, h.frame, hrequest.size]
      · intro hnil
        rw [hnil, List.length_nil] at hlen
        omega
      · have hroom := h.window.bound
        have hack := h.window.acknowledged_le_consumed
        have hconsumed := h.window.consumed_le_received
        have hcounted : upto ≤ s.sender.window.sent := hoffset ▸ h.sends.offset_le_sent
        rw [hreceived] at hconsumed ⊢
        rw [hlen]
        omega
  · rw [hnil] at hblocks
    cases hblocks

/-- A frame is delivered. -/
theorem Inv.deliver : Inv P path contents request (s.step P fs .deliver) := by
  simp only [step]
  cases hblocks : s.blocks with
  | nil => exact h
  | cons f blocks =>
    have habout : f.About s.receiver.frame := by
      rcases h.accepts hrequest hblocks with ⟨data, haccept, -⟩ | ⟨haccept, -⟩
      · exact (Receive.accept_cases haccept).1
      · exact (Receive.accept_cases haccept).1
    dsimp only [Receive.handle]
    rw [if_pos habout]
    rcases h.accepts hrequest hblocks with ⟨data, haccept, hdata, hlt, hflight⟩ |
      ⟨haccept, hnil, hclosed⟩
    · rw [haccept]
      have hended : s.receiver.ended = false := by
        rcases h.flight with ⟨hended, -⟩ | ⟨-, hnil, -⟩
        · exact hended
        · rw [hnil] at hblocks
          cases hblocks
      have hne : data ≠ [] := by
        intro hnil
        have hlen := length_block contents s.receiver.received
        have hpos := needed_pos hlt
        rw [← hdata, hnil, List.length_nil] at hlen
        omega
      have hreceived : s.receiver.received + data.length ≤ s.sender.window.sent :=
        hflight.le.trans h.sends.offset_le_sent
      have hconsumed := h.window.consumed_le_received
      refine ⟨h.sends, h.frame, h.failed, ?_, ?_, h.credits, ?_, .inl ⟨hended, hflight⟩⟩
      · refine h.stored.push ?_ hne
        rw [hdata]
        exact List.take_prefix _ _
      · exact h.window.mono (Nat.le_refl _) (hconsumed.trans (Nat.le_add_right _ _)) hreceived
          h.window.bound
      · intro hnil
        exact absurd hnil (by simp [Receive.push])
    · rw [haccept]
      refine ⟨h.sends, h.frame, h.failed, ?_, h.window, h.credits, h.settled,
        .inr ⟨rfl, hnil, hclosed⟩⟩
      obtain ⟨hle, hle', hbytes, hfront, hzero, hne⟩ := h.stored
      exact ⟨hle, hle', hbytes, hfront, hzero, hne⟩

omit hrequest in
/-- A round of a read. -/
theorem Inv.read (want : Nat) : Inv P path contents request (s.step P fs (.read want)) := by
  simp only [step]
  split_ifs with hwait
  · exact h
  push Not at hwait
  obtain ⟨hwant, -, hchunks⟩ := hwait
  have htake := h.stored.take hchunks (Nat.pos_of_ne_zero hwant)
  generalize (s.receiver.take want).1 = data at htake
  generalize (s.receiver.take want).2.1 = credit at htake ⊢
  generalize (s.receiver.take want).2.2 = receiver at htake ⊢
  have hwindow : Window windowBytes s.sender.window.acknowledged (s.credits.map Frame.offset)
      receiver.consumed receiver.received s.sender.window.sent := by
    rw [htake.received, htake.consumed]
    refine h.window.mono (Nat.le_add_right _ _) ?_ h.window.received_le_sent h.window.bound
    rw [← htake.consumed, ← htake.received]
    exact htake.stored.consumed_le
  have hflight : (receiver.ended = false ∧
      InFlight P contents request receiver.received s.blocks s.sender.offset s.sender.closed) ∨
        (receiver.ended = true ∧ s.blocks = [] ∧ s.sender.closed = true) := by
    rw [htake.ended, htake.received]
    exact h.flight
  refine ⟨h.sends, htake.frame.trans h.frame, htake.failed.trans h.failed, htake.stored, ?_, ?_, ?_,
    hflight⟩
  · rcases htake.credit_eq with hcredit | ⟨hcredit, -⟩
    · rw [hcredit, Option.toList_some, List.map_append, List.map_singleton]
      exact hwindow.acknowledge
    · rw [hcredit, Option.toList_none, List.append_nil]
      exact hwindow
  · intro f hf
    rcases List.mem_append.mp hf with hf | hf
    · exact h.credits f hf
    · rcases htake.credit_eq with hcredit | ⟨hcredit, -⟩
      · rw [hcredit, Option.toList_some, List.mem_singleton] at hf
        rw [hf, Receive.credit, htake.frame, h.frame]
      · rw [hcredit] at hf
        cases hf
  · intro hnil
    rcases htake.credit_eq with hcredit | ⟨-, hne⟩
    · rw [hcredit, Option.toList_some, List.map_append, List.map_singleton, List.getLast?_concat]
      rfl
    · exact absurd hnil hne

/-- An acknowledgement is delivered. -/
theorem Inv.acknowledge : Inv P path contents request (s.step P fs .acknowledge) := by
  simp only [step]
  cases hcredits : s.credits with
  | nil => exact h
  | cons f credits =>
    have hwindow := h.window
    rw [hcredits, List.map_cons] at hwindow
    obtain ⟨hle, hsent, hseen⟩ := hwindow.seen
    have hf := h.credits f (hcredits ▸ List.mem_cons_self)
    have hkind : f.kind = .credit := congrArg Frame.kind hf
    have habout : f.About s.sender.window.frame := by
      rw [h.sends.window, hf]
      exact ⟨rfl, rfl, rfl⟩
    have hdata : f.data = [] := (congrArg Frame.data hf).trans hrequest.data
    have hcompressed : f.compressed = false :=
      (congrArg Frame.compressed hf).trans hrequest.compressed
    have hgood : ¬(f.kind = .cancel ∨ f.data ≠ [] ∨ f.compressed ∨
        f.offset < s.sender.window.acknowledged ∨ s.sender.window.sent < f.offset) := by
      rw [hkind, hdata, hcompressed]
      simp [Nat.not_lt.mpr hle, Nat.not_lt.mpr hsent]
    dsimp only [SendWindow.handle]
    rw [if_pos habout, if_neg hgood]
    refine ⟨h.sends.acknowledge hle, h.frame, h.failed, h.stored, hseen, ?_, ?_, h.flight⟩
    · exact fun g hg => h.credits g (hcredits ▸ List.mem_cons_of_mem _ hg)
    · intro hnil
      have hsettled := h.settled hnil
      rw [hcredits, List.map_cons, List.getLast?_cons] at hsettled
      exact hsettled

/-- The sending thread takes a step. -/
theorem Inv.send (hcompress : ∀ data, P.decompress (P.compress data) = data)
    (hempty : P.decompress [] = []) (hfile : fs.lookup path = some (.file contents)) :
    Inv P path contents request (s.step P fs .send) := by
  obtain ⟨hsends, hadvances, hack, hsent, hbound⟩ :=
    h.sends.advance hcompress hempty hfile hrequest h.window.bound
  simp only [step]
  generalize (s.sender.advance P fs).1 = sender at *
  generalize (s.sender.advance P fs).2 = frames at *
  refine ⟨hsends, h.frame, h.failed, h.stored, ?_, h.credits, ?_, ?_⟩
  · rw [hack]
    exact h.window.mono (Nat.le_refl _) h.window.consumed_le_received
      (h.window.received_le_sent.trans hsent) hbound
  · rw [hack]
    exact h.settled
  · rcases h.flight with ⟨hended, hflight⟩ | ⟨hended, hnil, hclosed⟩
    · refine .inl ⟨hended, ?_⟩
      cases hadvances with
      | silent hoffset hclosed =>
        rw [List.append_nil, hoffset, hclosed]
        exact hflight
      | block hf hlt hoffset hclosed hclosed' =>
        rw [hclosed] at hflight
        rw [hclosed', hoffset]
        exact hflight.snoc_block hlt hf
      | last hf hend hoffset hclosed hclosed' =>
        rw [hclosed, hend] at hflight
        rw [hclosed', hoffset, hend]
        exact hflight.snoc_end hf
    · refine .inr ⟨hended, ?_⟩
      cases hadvances with
      | silent hoffset hclosed' =>
        exact ⟨by rw [List.append_nil]; exact hnil, hclosed'.trans hclosed⟩
      | block hf hlt hoffset hclosed' => rw [hclosed] at hclosed'; cases hclosed'
      | last hf hend hoffset hclosed' => rw [hclosed] at hclosed'; cases hclosed'

omit hrequest in
/-- A sender that waits has something on its way, or a reader that has not caught up. -/
theorem Inv.not_blocked (hblocks : s.blocks = []) (hcredits : s.credits = [])
    (hconsumed : s.receiver.consumed = s.receiver.received) : ¬ s.sender.Blocked := by
  rintro ⟨⟨job, hphase⟩, hlt, -, hwaits⟩
  have hsteady := h.sends.steady
  rw [Steady, hphase] at hsteady
  have hclosed : s.sender.closed = false := by simp [Sender.closed, hphase]
  have hreceived : s.receiver.received = s.sender.offset := by
    rcases h.flight with ⟨-, hflight⟩ | ⟨-, -, hclosed'⟩
    · rw [hblocks] at hflight
      exact hflight.eq_of_nil
    · rw [hclosed] at hclosed'
      cases hclosed'
  have hsettled := h.settled (h.stored.chunks_eq_nil_iff.mpr hconsumed)
  rw [hcredits] at hsettled
  have hack : s.sender.window.acknowledged = s.receiver.consumed := hsettled
  have hneeded := needed_le s.sender.frame.size s.sender.offset
  have hwindow : blockBytes ≤ windowBytes := by
    unfold windowBytes
    omega
  unfold Sender.needed at hwaits
  omega

end Steps

/-- A stream that was just asked for. -/
theorem inv_start {sender : Sender} (hrequest : Asks contents request)
    (h : Sender.start request path = .ok sender) :
    Inv P path contents request (start sender) := by
  unfold Sender.start at h
  split_ifs at h
  cases h
  refine ⟨?_, rfl, rfl, .new hrequest.offset_le, .refl (Nat.le_add_right _ _),
    List.forall_mem_nil _, fun _ => rfl, .inl ⟨rfl, .nil _⟩⟩
  exact ⟨rfl, rfl, rfl, hrequest.offset_le, rfl, rfl, rfl⟩

/-- Every run keeps the invariant. -/
theorem inv_run (hcompress : ∀ data, P.decompress (P.compress data) = data)
    (hempty : P.decompress [] = []) (hfile : fs.lookup path = some (.file contents))
    (hrequest : Asks contents request) {s : Stream} (h : Inv P path contents request s)
    (es : List StreamEvent) : Inv P path contents request (run (step P fs) s es) := by
  induction es generalizing s with
  | nil => exact h
  | cons e es ih =>
    cases e with
    | send => exact ih (h.send hrequest hcompress hempty hfile)
    | deliver => exact ih (h.deliver hrequest)
    | read want => exact ih (h.read want)
    | acknowledge => exact ih (h.acknowledge hrequest)

/-- Over any run of a stream: the receiver takes every frame, no end gives up, the counters
stay in order and within the window, and a sender does not wait when nothing is on its way
and the reader has consumed what was received. -/
theorem flow_control (hcompress : ∀ data, P.decompress (P.compress data) = data)
    (hempty : P.decompress [] = []) (hfile : fs.lookup path = some (.file contents))
    (hsize : request.size = contents.length) (hlt : contents.length < 2 ^ 64) {sender : Sender}
    (hstart : Sender.start request path = .ok sender) (es : List StreamEvent) :
    let s := run (step P fs) (start sender) es
    (∀ f ∈ s.blocks.head?, ∃ r, s.receiver.accept P f = .ok r) ∧
      s.receiver.failed = false ∧ s.sender.window.cancelled = false ∧
      s.sender.phase ≠ .stopped true ∧
      s.sender.window.acknowledged ≤ s.receiver.consumed ∧
      s.receiver.consumed ≤ s.receiver.received ∧
      s.receiver.received ≤ s.sender.window.sent ∧
      s.sender.window.sent ≤ s.sender.window.acknowledged + windowBytes ∧
      (s.blocks = [] → s.credits = [] → s.receiver.consumed = s.receiver.received →
        ¬ s.sender.Blocked) := by
  intro s
  have hrequest : Asks contents request := by
    unfold Sender.start at hstart
    split_ifs at hstart with hbad
    push Not at hbad
    obtain ⟨-, hoffset, hdata, hcompressed⟩ := hbad
    exact ⟨hsize, hlt, hsize ▸ hoffset, hdata, eq_false_of_ne_true hcompressed⟩
  have h : Inv P path contents request s :=
    inv_run hcompress hempty hfile hrequest (inv_start hrequest hstart) es
  refine ⟨?_, h.failed, h.sends.cancelled, ?_, h.window.acknowledged_le_consumed,
    h.window.consumed_le_received, h.window.received_le_sent, h.window.bound,
    fun hblocks hcredits hconsumed => h.not_blocked hblocks hcredits hconsumed⟩
  · intro f hf
    obtain ⟨blocks, hblocks⟩ := List.head?_eq_some_iff.mp hf
    rcases h.accepts hrequest hblocks with ⟨data, haccept, -⟩ | ⟨haccept, -⟩
    · exact ⟨_, haccept⟩
    · exact ⟨_, haccept⟩
  · intro hphase
    have hsteady := h.sends.steady
    rw [Steady, hphase] at hsteady
    cases hsteady.1

/-- A stream of two bytes, read byte by byte. -/
theorem flow_control_two :
    let fs : Fs := ⟨[(["a"], .file [1, 2])]⟩
    let request : Frame := { kind := .request, generation := 7, requestId := 9, size := 2 }
    let sender : Sender := {
      frame := request
      path := ["a"]
      window := { frame := request, sent := 0, acknowledged := 0 }
      offset := 0 }
    let s := run (step .posix fs) (start sender)
      [.send, .send, .send, .send, .send, .deliver, .read 1, .read 1, .acknowledge]
    Sender.start request ["a"] = .ok sender ∧ s.sender.window.acknowledged = 2 ∧
      s.receiver.failed = false ∧ ¬ s.sender.Blocked := by
  intro fs request sender
  have hfile : fs.lookup ["a"] = some (.file [1, 2]) := rfl
  have hsize : request.size = [1, 2].length := rfl
  have hstart : Sender.start request ["a"] = .ok sender := rfl
  have h := flow_control (P := .posix) (fun _ => rfl) rfl hfile hsize (by decide) hstart
    [.send, .send, .send, .send, .send, .deliver, .read 1, .read 1, .acknowledge]
  obtain ⟨-, hfailed, -, -, -, -, -, -, hblocked⟩ := h
  exact ⟨rfl, by decide, hfailed, hblocked (by decide) (by decide) (by decide)⟩

end Stream

end MDesk.Clipboard
