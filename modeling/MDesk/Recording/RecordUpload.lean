import MDesk.Core.LexicalPath
import MDesk.Core.Mirror
import MDesk.Recording.Recorder

/-!
# The upload of a recording

The recorder tells the uploader of every segment: that it begins, that it has grown, that it has
ended or been deleted. The uploader reads the file in the meantime and posts what it has not
posted yet; at the end it posts the first kilobyte once more, where the muxer has written the
sizes and the places that it knew last.
-/

namespace MDesk

open Core

namespace Recording

/-- What the recorder sends to the uploader. -/
inductive RecordState where
  | newFile (filepath : String)
  | newFrame
  | writeTail
  | removeFile (filepath : String)
deriving DecidableEq

/-! ## What the recorder sends -/

namespace Recorder

/-- The end of a segment. -/
def dropStates (r : Recorder) : List RecordState :=
  match r.inner with
  | some segment =>
    if segment.written then [.writeTail] else [.removeFile segment.filename]
  | none => []

variable (ctx : RecorderContext) (stamp : Nat → String)

def checkStates (r : Recorder) (width height : Nat) (format : CodecFormat) (now : Nat)
    (opening : Opening) : List RecordState :=
  match r.opens ctx stamp width height format now with
  | some filename =>
    if opening = .noDirectory then []
    else r.dropStates ++ if opening = .created then [.newFile filename] else []
  | none => []

def checkPtsStates (r : Recorder) (frame : EncodedVideoFrame) (width height : Nat)
    (format : CodecFormat) : List RecordState :=
  if r.pts = none ∧ frame.key = false then []
  else if r.rotates frame then
    r.dropStates ++
      (r.finish frame).checkStates ctx stamp width height format frame.now frame.opening
  else []

/-- A message whose frames have all been taken is reported as one. -/
def writeFramesStates (r : Recorder) (width height : Nat) (format : CodecFormat) :
    List EncodedVideoFrame → List RecordState
  | [] => [.newFrame]
  | frame :: frames =>
    let checked := r.checkPts ctx stamp frame width height format
    r.checkPtsStates ctx stamp frame width height format ++
      if checked.2 then
        (checked.1.writeVideo frame).writeFramesStates width height format frames
      else []

def writeFrameStates (r : Recorder) (message : VideoFrame) : List RecordState :=
  if r.checkFailed ∨ message.format = .unknown then []
  else
    let checked := r.check ctx stamp message.width message.height message.format message.now
      message.opening
    r.checkStates ctx stamp message.width message.height message.format message.now
        message.opening ++
      if checked.2 then
        checked.1.writeFramesStates ctx stamp message.width message.height message.format
          message.frames
      else []

/-- What a recorder sends for its messages, up to its own end. -/
def states (r : Recorder) : List VideoFrame → List RecordState
  | [] => r.dropStates
  | message :: messages =>
    r.writeFrameStates ctx stamp message ++ (r.writeFrame ctx stamp message).states messages

end Recorder

/-! ## The uploader -/

/-- `MAX_HEADER_LEN`. -/
def maxHeaderLen : Nat := 1024

/-- `SHOULD_SEND_TIME`, in nanoseconds. -/
def shouldSendTime : Nat := 1000000000

/-- `SHOULD_SEND_SIZE`. -/
def shouldSendSize : Nat := 1024 * 1024

/-- The requests to `/api/record`, by their type. -/
inductive Post where
  | new (file : String)
  | part (file : String) (offset length : Nat) (body : List UInt8)
  | tail (file : String) (offset length : Nat) (body : List UInt8)
  | remove (file : String)
deriving DecidableEq

structure RecordUploader where
  filepath : String := ""
  filename : String := ""
  uploadSize : Nat := 0
  running : Bool := false
  lastSend : Nat := 0
deriving DecidableEq

/-- What goes on while a state is handled: the time it is taken up at, at which the length of the
file is asked for, at which the rest is read, at which the post has been answered, and at which
the header is read; the errors of the file system; and the error that a post is answered with. -/
structure Circumstances where
  now : Nat
  measured : Nat
  read : Nat
  sent : Nat
  reread : Nat
  openError : Option String := none
  readError : Option String := none
  tailError : Option String := none
  refused : Post → Option String := fun _ => none

/-- What the handling of a state leaves behind, with the posts and whether they were accepted. -/
structure UploadResult where
  result : Except String Unit
  uploader : RecordUploader
  posts : List (Post × Bool)

namespace RecordUploader

variable (paths : PathConvention) (file : String → Nat → List UInt8)

/-- `PathBuf::file_name`. -/
def fileName (filepath : String) : Option String :=
  match (paths.components filepath).getLast? with
  | some (.normal name) => some name
  | _ => none

/-- `send`, and `?` behind it. -/
def send (u : RecordUploader) (c : Circumstances) (post : Post) (sent : RecordUploader) :
    UploadResult :=
  match c.refused post with
  | some e => ⟨.error e, u, [(post, false)]⟩
  | none => ⟨.ok (), sent, [(post, true)]⟩

def handleNewFile (u : RecordUploader) (c : Circumstances) (filepath : String) : UploadResult :=
  match fileName paths filepath with
  | none => ⟨.error ("can't parse filepath:" ++ filepath), u, []⟩
  | some filename =>
    let u := { u with filename, filepath, uploadSize := 0, running := true, lastSend := c.now }
    u.send c (.new filename) u

def handleFrame (u : RecordUploader) (c : Circumstances) (flush : Bool) : UploadResult :=
  if ¬ flush ∧ c.now - u.lastSend < shouldSendTime then ⟨.ok (), u, []⟩
  else
    match c.openError with
    | some e => ⟨.error e, u, []⟩
    | none =>
      let len := (file u.filepath c.measured).length
      if len ≤ u.uploadSize then ⟨.ok (), u, []⟩
      else if ¬ flush ∧ len - u.uploadSize < shouldSendSize then ⟨.ok (), u, []⟩
      else
        match c.readError with
        | some e => ⟨.error e, u, []⟩
        | none =>
          -- what has been written since the length was asked for is posted too, and again
          let buf := (file u.filepath c.read).drop u.uploadSize
          u.send c (.part u.filename u.uploadSize buf.length buf)
            { u with uploadSize := len, lastSend := c.sent }

def handleTail (u : RecordUploader) (c : Circumstances) : UploadResult :=
  let frame := u.handleFrame file c true
  match frame.result with
  | .error _ => frame
  | .ok () =>
    match c.tailError with
    | some e => { frame with result := .error e }
    | none =>
      let u := frame.uploader
      let buf := (file u.filepath c.reread).take maxHeaderLen
      let tail := u.send c (.tail u.filename 0 buf.length buf) u
      { tail with posts := frame.posts ++ tail.posts }

def handleRemove (u : RecordUploader) (c : Circumstances) : UploadResult :=
  u.send c (.remove u.filename) u

/-- A state in the loop of `run`. -/
def handle (u : RecordUploader) (c : Circumstances) (state : RecordState) : UploadResult :=
  match state with
  | .newFile filepath => u.handleNewFile paths c filepath
  | .newFrame => if u.running then u.handleFrame file c false else ⟨.ok (), u, []⟩
  | .writeTail => if u.running then u.handleTail file c else ⟨.ok (), u, []⟩
  | .removeFile _ => if u.running then u.handleRemove c else ⟨.ok (), u, []⟩

/-- `run`, with all posts so far. An error stops the upload of the file. -/
def step (s : RecordUploader × List (Post × Bool)) (e : RecordState × Circumstances) :
    RecordUploader × List (Post × Bool) :=
  let handled := s.1.handle paths file e.2 e.1
  match handled.result with
  | .ok () => (handled.uploader, s.2 ++ handled.posts)
  | .error _ => ({ handled.uploader with running := false }, s.2 ++ handled.posts)

end RecordUploader

/-! ## The copies -/

/-- What an accepted post makes of the copy of a file. -/
def applyPost (file : String) (copy : List UInt8) : Post × Bool → List UInt8
  | (_, false) => copy
  | (.new name, true) => if name = file then [] else copy
  | (.part name offset _ body, true) => if name = file then overlay 0 copy offset body else copy
  | (.tail name offset _ body, true) => if name = file then overlay 0 copy offset body else copy
  | (.remove name, true) => if name = file then [] else copy

/-- The copy of a file that the posts give. -/
def copyOf (file : String) (posts : List (Post × Bool)) : List UInt8 :=
  posts.foldl (applyPost file) []

theorem copyOf_append (file : String) (posts more : List (Post × Bool)) :
    copyOf file (posts ++ more) = more.foldl (applyPost file) (copyOf file posts) :=
  List.foldl_append

/-! ## The order of the states -/

/-- The file of the segment that is being written. -/
def follow (current : Option String) : RecordState → Option String
  | .newFile filepath => some filepath
  | .newFrame => current
  | .writeTail | .removeFile _ => none

/-- A segment begins when there is none, and grows and ends when there is one. -/
def Follows (current : Option String) : RecordState → Prop
  | .newFile _ => current = none
  | .newFrame | .writeTail => current ≠ none
  | .removeFile filepath => current = some filepath

/-- States that lead from one segment to another. -/
def Leads (current : Option String) (states : List RecordState) (next : Option String) : Prop :=
  Allowed follow Follows current states ∧ run follow current states = next

theorem Leads.refl (current : Option String) : Leads current [] current := ⟨trivial, rfl⟩

theorem Leads.append {current next last : Option String} {states more : List RecordState}
    (h : Leads current states next) (h' : Leads next more last) :
    Leads current (states ++ more) last := by
  obtain ⟨hall, rfl⟩ := h
  exact ⟨allowed_append.mpr ⟨hall, h'.1⟩, (run_append states more).trans h'.2⟩

namespace Recorder

variable {ctx : RecorderContext} {stamp : Nat → String} {r : Recorder}

/-- The file of the segment of a recorder. -/
def current (r : Recorder) : Option String := r.inner.map OpenSegment.filename

theorem current_drop : r.drop.current = none := by rw [current, inner_drop]; rfl

theorem leads_drop (r : Recorder) : Leads r.current r.dropStates none := by
  unfold dropStates
  split
  · rename_i segment hinner
    rw [current, hinner, Option.map_some]
    split_ifs
    · exact ⟨⟨Option.some_ne_none _, trivial⟩, rfl⟩
    · exact ⟨⟨rfl, trivial⟩, rfl⟩
  · rename_i hinner
    rw [current, hinner]
    exact .refl _

/-- The check of a message leads to the segment of its size and codec. -/
theorem leads_check (r : Recorder) (width height : Nat) (format : CodecFormat) (now : Nat)
    (opening : Opening) :
    Leads r.current (r.checkStates ctx stamp width height format now opening)
        (r.check ctx stamp width height format now opening).1.current ∧
      ((r.check ctx stamp width height format now opening).2 = true →
        (r.check ctx stamp width height format now opening).1.current ≠ none) := by
  have hsegment : r.opens ctx stamp width height format now = none → r.current ≠ none := by
    intro hopens hcurrent
    unfold opens at hopens
    split at hopens
    · split_ifs at hopens with hsame hinner
      exact hinner (Option.map_eq_none_iff.mp hcurrent)
    · cases hopens
  unfold checkStates check
  cases hopens : r.opens ctx stamp width height format now with
  | none => exact ⟨.refl _, fun _ => hsegment hopens⟩
  | some filename =>
    dsimp only
    by_cases hdirectory : opening = .noDirectory
    · rw [if_pos hdirectory, if_pos hdirectory]
      exact ⟨.refl _, fun h => absurd h Bool.false_ne_true⟩
    rw [if_neg hdirectory, if_neg hdirectory]
    cases opening with
    | created =>
      exact ⟨r.leads_drop.append ⟨⟨rfl, trivial⟩, rfl⟩, fun _ => Option.some_ne_none _⟩
    | noDirectory => exact absurd rfl hdirectory
    | noFile =>
      refine ⟨?_, fun h => absurd h Bool.false_ne_true⟩
      exact r.leads_drop.append ⟨trivial, current_drop.symm⟩
    | noMuxer =>
      refine ⟨?_, fun h => absurd h Bool.false_ne_true⟩
      exact r.leads_drop.append ⟨trivial, current_drop.symm⟩

/-- A frame whose time stamp goes back begins another segment. -/
theorem leads_checkPts (r : Recorder) (frame : EncodedVideoFrame) (width height : Nat)
    (format : CodecFormat) (h : r.current ≠ none) :
    Leads r.current (r.checkPtsStates ctx stamp frame width height format)
        (r.checkPts ctx stamp frame width height format).1.current ∧
      ((r.checkPts ctx stamp frame width height format).2 = true →
        (r.checkPts ctx stamp frame width height format).1.current ≠ none) := by
  unfold checkPtsStates checkPts
  by_cases hfirst : r.pts = none ∧ frame.key = false
  · rw [if_pos hfirst, if_pos hfirst]
    exact ⟨.refl _, fun hfalse => absurd hfalse Bool.false_ne_true⟩
  rw [if_neg hfirst, if_neg hfirst]
  by_cases hrotates : r.rotates frame
  · rw [if_pos hrotates, if_pos hrotates]
    have hfinish : (r.finish frame).current = none := current_drop
    obtain ⟨hleads, hsome⟩ := (r.finish frame).leads_check width
      height format frame.now frame.opening
    rw [hfinish] at hleads
    dsimp only
    split_ifs with hchecked
    · exact ⟨r.leads_drop.append hleads, fun _ => hsome hchecked⟩
    · exact ⟨r.leads_drop.append hleads, by rintro ⟨⟩⟩
  · rw [if_neg hrotates, if_neg hrotates]
    exact ⟨.refl _, fun _ => h⟩

theorem current_writeVideo (r : Recorder) (frame : EncodedVideoFrame) :
    (r.writeVideo frame).current = r.current := by
  unfold writeVideo current
  split
  · rename_i segment hinner
    split_ifs <;> rw [hinner] <;> rfl
  · rfl

theorem leads_writeFrames (width height : Nat) (format : CodecFormat)
    (frames : List EncodedVideoFrame) (r : Recorder) (h : r.current ≠ none) :
    Leads r.current (r.writeFramesStates ctx stamp width height format frames)
      (r.writeFrames ctx stamp width height format frames).current := by
  induction frames generalizing r with
  | nil => exact ⟨⟨h, trivial⟩, rfl⟩
  | cons frame frames ih =>
    obtain ⟨hleads, hsome⟩ := r.leads_checkPts frame width height
      format h
    unfold writeFramesStates writeFrames
    dsimp only
    split_ifs with hchecked
    · have hnext := hsome hchecked
      rw [← current_writeVideo (r.checkPts ctx stamp frame width height format).1 frame]
        at hleads hnext
      exact hleads.append (ih _ hnext)
    · exact hleads.append (.refl _)

theorem leads_writeFrame (r : Recorder) (message : VideoFrame) :
    Leads r.current (r.writeFrameStates ctx stamp message)
      (r.writeFrame ctx stamp message).current := by
  obtain ⟨hleads, hsome⟩ := r.leads_check message.width
    message.height message.format message.now message.opening
  unfold writeFrameStates writeFrame
  split_ifs with hfailed
  · exact .refl _
  · dsimp only
    split_ifs with hchecked
    · exact hleads.append (leads_writeFrames _ _ _ _ _ (hsome hchecked))
    · exact hleads.append (.refl _)

/-- A recorder tells of one segment after another. -/
theorem allowed_states (messages : List VideoFrame) (r : Recorder) :
    Allowed follow Follows r.current (r.states ctx stamp messages) := by
  induction messages generalizing r with
  | nil => exact r.leads_drop.1
  | cons message messages ih =>
    obtain ⟨hall, hcurrent⟩ : Leads r.current (r.writeFrameStates ctx stamp message)
        (r.writeFrame ctx stamp message).current := r.leads_writeFrame message
    unfold states
    rw [allowed_append, hcurrent]
    exact ⟨hall, ih _⟩

end Recorder

/-! ## The copy of a segment -/

/-- States are handled one after another, and each of them in its order of time. -/
structure Timely (es : List (RecordState × Circumstances)) : Prop where
  each : ∀ e ∈ es, e.2.now ≤ e.2.measured ∧ e.2.measured ≤ e.2.read ∧ e.2.read ≤ e.2.sent ∧
    e.2.sent ≤ e.2.reread
  order : es.Pairwise fun e e' => e.2.reread ≤ e'.2.now

/-- A file only grows, its header apart. -/
def Recorded (file : String → Nat → List UInt8) (path : String) : Prop :=
  ∀ t t', t ≤ t' → GrowsBehind maxHeaderLen (file path t) (file path t')

/-- A copy mirrors something that the file has held, to which the file has only been added since
a time. -/
structure Copied (file : String → Nat → List UInt8) (path : String) (size time : Nat)
    (copy seen : List UInt8) : Prop where
  mirrors : Mirrors maxHeaderLen copy seen
  size : size ≤ seen.length
  grows : ∀ t, time ≤ t → GrowsBehind maxHeaderLen seen (file path t)

namespace RecordUploader

variable {paths : PathConvention} {file : String → Nat → List UInt8} {u : RecordUploader}
  {posts : List (Post × Bool)} {c : Circumstances} {flush : Bool}

/-- A post that is accepted. -/
theorem send_ok {post : Post} {sent : RecordUploader} (hok : (u.send c post sent).result = .ok ()) :
    (u.send c post sent).uploader = sent ∧ (u.send c post sent).posts = [(post, true)] := by
  unfold send at hok ⊢
  split at hok
  · cases hok
  · exact ⟨rfl, rfl⟩

/-- A frame is not posted, or the rest of the file is. -/
theorem handleFrame_ok (hok : (u.handleFrame file c flush).result = .ok ()) :
    ((u.handleFrame file c flush).uploader = u ∧ (u.handleFrame file c flush).posts = [] ∧
      (flush = true → (file u.filepath c.measured).length ≤ u.uploadSize)) ∨
    ((u.handleFrame file c flush).uploader =
        { u with uploadSize := (file u.filepath c.measured).length, lastSend := c.sent } ∧
      ∃ length, (u.handleFrame file c flush).posts =
        [(.part u.filename u.uploadSize length ((file u.filepath c.read).drop u.uploadSize),
          true)]) := by
  unfold handleFrame at hok ⊢
  by_cases hearly : ¬ flush = true ∧ c.now - u.lastSend < shouldSendTime
  · rw [if_pos hearly]
    exact .inl ⟨rfl, rfl, fun hflush => absurd hflush hearly.1⟩
  rw [if_neg hearly] at hok ⊢
  split at hok
  · cases hok
  · dsimp only at hok ⊢
    by_cases hlen : (file u.filepath c.measured).length ≤ u.uploadSize
    · rw [if_pos hlen]
      exact .inl ⟨rfl, rfl, fun _ => hlen⟩
    rw [if_neg hlen] at hok ⊢
    by_cases hlittle : ¬ flush = true ∧
        (file u.filepath c.measured).length - u.uploadSize < shouldSendSize
    · rw [if_pos hlittle]
      exact .inl ⟨rfl, rfl, fun hflush => absurd hflush hlittle.1⟩
    rw [if_neg hlittle] at hok ⊢
    split at hok
    · cases hok
    · obtain ⟨huploader, hposts⟩ := send_ok hok
      exact .inr ⟨huploader, _, hposts⟩

/-- The tail posts what is left of the file, and its header. -/
theorem handleTail_ok (hok : (u.handleTail file c).result = .ok ()) :
    (u.handleFrame file c true).result = .ok () ∧
      (u.handleTail file c).uploader = (u.handleFrame file c true).uploader ∧
      ∃ length, (u.handleTail file c).posts = (u.handleFrame file c true).posts ++
        [(.tail u.filename 0 length ((file u.filepath c.reread).take maxHeaderLen), true)] := by
  unfold handleTail at hok ⊢
  dsimp only at hok ⊢
  cases hframe : (u.handleFrame file c true).result with
  | error e =>
    rw [hframe] at hok
    exact absurd (hframe.symm.trans hok) (by rintro ⟨⟩)
  | ok done =>
    obtain ⟨hfile, hnamed⟩ : (u.handleFrame file c true).uploader.filepath = u.filepath ∧
        (u.handleFrame file c true).uploader.filename = u.filename := by
      rcases handleFrame_ok hframe with ⟨huploader, -⟩ | ⟨huploader, -⟩ <;>
        rw [huploader] <;> exact ⟨rfl, rfl⟩
    rw [hframe] at hok
    dsimp only at hok ⊢
    split at hok
    · cases hok
    · obtain ⟨huploader, hposts⟩ := send_ok hok
      exact ⟨rfl, huploader, _, by rw [hposts, hnamed, hfile]⟩

end RecordUploader

section Run

variable {paths : PathConvention} {file : String → Nat → List UInt8}
  {es : List (RecordState × Circumstances)} {s : RecordUploader × List (Post × Bool)}
  {state : RecordState} {c : Circumstances}

/-- The handling of a frame brings the copy up to date, as far as it posts. -/
theorem Copied.handleFrame {u : RecordUploader} {posts : List (Post × Bool)} {flush : Bool}
    {time : Nat} {seen : List UInt8}
    (h : Copied file u.filepath u.uploadSize time (copyOf u.filename posts) seen)
    (hrecorded : Recorded file u.filepath) (htime : time ≤ c.measured)
    (hread : c.measured ≤ c.read) (hok : (u.handleFrame file c flush).result = .ok ()) :
    ∃ seen', Copied file u.filepath (u.handleFrame file c flush).uploader.uploadSize c.read
        (copyOf u.filename (posts ++ (u.handleFrame file c flush).posts)) seen' ∧
      (flush = true → (file u.filepath c.measured).length ≤ seen'.length) := by
  rcases RecordUploader.handleFrame_ok hok with
    ⟨huploader, hposts, hflush⟩ | ⟨huploader, length, hposts⟩
  · rw [huploader, hposts, List.append_nil]
    refine ⟨seen, ⟨h.mirrors, h.size, fun t ht => h.grows t (by omega)⟩, fun hf => ?_⟩
    exact Nat.le_trans (hflush hf) h.size
  · have hgrow := hrecorded _ _ hread
    rw [huploader, hposts, copyOf_append]
    refine ⟨file u.filepath c.read, ⟨?_, hgrow.1, fun t ht => hrecorded _ _ ht⟩, fun _ => hgrow.1⟩
    rw [List.foldl_cons, List.foldl_nil, applyPost, if_pos rfl]
    exact h.mirrors.overlay_rest (h.grows _ (by omega)) h.size

/-- What holds of the uploader between two states: while it is running, it is at the segment
that is being written, and has a copy of what it has read of it. -/
def Uploading (paths : PathConvention) (file : String → Nat → List UInt8)
    (es : List (RecordState × Circumstances)) (s : RecordUploader × List (Post × Bool)) : Prop :=
  ∀ path, run follow none (es.map Prod.fst) = some path → s.1.running = true →
    s.1.filepath = path ∧ RecordUploader.fileName paths path = some s.1.filename ∧
      (Recorded file path → ∀ time, (∀ e ∈ es, e.2.reread ≤ time) →
        ∃ seen, Copied file path s.1.uploadSize time (copyOf s.1.filename s.2) seen)

/-- An uploader that is still running has met no error. -/
theorem step_running (h : (RecordUploader.step paths file s (state, c)).1.running = true) :
    (s.1.handle paths file c state).result = .ok () ∧
      RecordUploader.step paths file s (state, c) =
        ((s.1.handle paths file c state).uploader,
          s.2 ++ (s.1.handle paths file c state).posts) := by
  unfold RecordUploader.step at h ⊢
  dsimp only at h ⊢
  split at h
  · rename_i hok
    rw [hok]
    exact ⟨rfl, rfl⟩
  · cases h

/-- An uploader that does not run starts with a new file only. -/
theorem handle_running (h : (s.1.handle paths file c state).uploader.running = true)
    (hnew : ∀ filepath, state ≠ .newFile filepath) : s.1.running = true := by
  by_contra hnot
  unfold RecordUploader.handle at h
  cases state with
  | newFile filepath => exact hnew filepath rfl
  | newFrame =>
    dsimp only at h
    rw [if_neg hnot] at h
    exact hnot h
  | writeTail =>
    dsimp only at h
    rw [if_neg hnot] at h
    exact hnot h
  | removeFile filepath =>
    dsimp only at h
    rw [if_neg hnot] at h
    exact hnot h

/-- A segment begins with an empty copy. -/
theorem handleNewFile_ok {u : RecordUploader} {filepath : String}
    (hok : (u.handleNewFile paths c filepath).result = .ok ()) :
    ∃ name, RecordUploader.fileName paths filepath = some name ∧
      (u.handleNewFile paths c filepath).uploader = ⟨filepath, name, 0, true, c.now⟩ ∧
      (u.handleNewFile paths c filepath).posts = [(.new name, true)] := by
  unfold RecordUploader.handleNewFile at hok ⊢
  split at hok
  · cases hok
  · rename_i name hname
    obtain ⟨huploader, hposts⟩ := RecordUploader.send_ok hok
    exact ⟨name, hname, huploader, hposts⟩

theorem uploading_step (h : Uploading paths file es s) (htimes : Timely (es ++ [(state, c)])) :
    Uploading paths file (es ++ [(state, c)]) (RecordUploader.step paths file s (state, c)) := by
  intro path hpath hrunning
  obtain ⟨hok, hstep⟩ := step_running hrunning
  rw [hstep] at hrunning ⊢
  rw [List.map_append, run_append] at hpath
  have hlast : (state, c) ∈ es ++ [(state, c)] :=
    List.mem_append_right _ (List.mem_singleton_self _)
  cases state with
  | newFile filepath =>
    cases hpath
    obtain ⟨name, hname, huploader, hposts⟩ := handleNewFile_ok hok
    unfold RecordUploader.handle
    dsimp only
    rw [huploader, hposts]
    refine ⟨rfl, hname, fun _ time _ => ⟨[], ?_, Nat.zero_le _, fun t _ => .nil _ _⟩⟩
    rw [copyOf_append, List.foldl_cons, List.foldl_nil, applyPost, if_pos rfl]
    exact .nil _
  | newFrame =>
    have hwas := handle_running hrunning (by rintro _ ⟨⟩)
    obtain ⟨rfl, hname, hcopied⟩ := h path hpath hwas
    unfold RecordUploader.handle at hok ⊢
    dsimp only at hok ⊢
    rw [if_pos hwas] at hok ⊢
    obtain ⟨hfile, hnamed⟩ :
        (s.1.handleFrame file c false).uploader.filepath = s.1.filepath ∧
          (s.1.handleFrame file c false).uploader.filename = s.1.filename := by
      rcases RecordUploader.handleFrame_ok hok with ⟨huploader, -⟩ | ⟨huploader, -⟩ <;>
        rw [huploader] <;> exact ⟨rfl, rfl⟩
    refine ⟨hfile, hname.trans (congrArg some hnamed.symm), fun hrecorded time htime => ?_⟩
    have hbefore : ∀ e ∈ es, e.2.reread ≤ c.now := fun e he =>
      (List.pairwise_append.mp htimes.order).2.2 e he _ (List.mem_singleton_self _)
    obtain ⟨hnow, hread, hsent, hreread⟩ := htimes.each _ hlast
    obtain ⟨seen, hseen⟩ := hcopied hrecorded c.now hbefore
    obtain ⟨seen', hseen', -⟩ := hseen.handleFrame hrecorded hnow hread hok
    rw [hnamed]
    refine ⟨seen', hseen'.mirrors, hseen'.size, fun t ht => hseen'.grows t ?_⟩
    have hafter := htime _ hlast
    exact Nat.le_trans (Nat.le_trans hsent hreread) (Nat.le_trans hafter ht)
  | writeTail => cases hpath
  | removeFile filepath => cases hpath

theorem uploading_run (start : Nat) (htimes : Timely es) :
    Uploading paths file es
      (run (RecordUploader.step paths file) ({ lastSend := start }, []) es) := by
  induction es using List.reverseRecOn with
  | nil =>
    rintro path ⟨⟩
  | append_singleton es e ih =>
    have hsub : Timely es := ⟨fun e' he' => htimes.each e' (List.mem_append_left _ he'),
      (List.pairwise_append.mp htimes.order).1⟩
    rw [run_append]
    exact uploading_step (ih hsub) htimes

/-- The tail of a segment completes its copy. -/
theorem copyOf_step_writeTail (h : Uploading paths file es s)
    (htimes : Timely (es ++ [(.writeTail, c)])) {path : String}
    (hpath : run follow none (es.map Prod.fst) = some path) (hrecorded : Recorded file path)
    (hdone : ∀ t, c.now ≤ t → file path t = file path c.now)
    (hrunning : (RecordUploader.step paths file s (.writeTail, c)).1.running = true) :
    ∃ name, RecordUploader.fileName paths path = some name ∧
      copyOf name (RecordUploader.step paths file s (.writeTail, c)).2 = file path c.now := by
  obtain ⟨hok, hstep⟩ := step_running hrunning
  rw [hstep] at hrunning ⊢
  have hwas := handle_running hrunning (by rintro _ ⟨⟩)
  obtain ⟨rfl, hname, hcopied⟩ := h path hpath hwas
  refine ⟨s.1.filename, hname, ?_⟩
  have hbefore : ∀ e ∈ es, e.2.reread ≤ c.now := fun e he =>
    (List.pairwise_append.mp htimes.order).2.2 e he _ (List.mem_singleton_self _)
  obtain ⟨hnow, hread, hsent, hreread⟩ :=
    htimes.each _ (List.mem_append_right es (List.mem_singleton_self _))
  dsimp only at hnow hread hsent hreread
  unfold RecordUploader.handle at hok ⊢
  dsimp only at hok ⊢
  rw [if_pos hwas] at hok ⊢
  obtain ⟨hframe, -, length, hposts⟩ := RecordUploader.handleTail_ok hok
  obtain ⟨seen, hseen⟩ := hcopied hrecorded c.now hbefore
  obtain ⟨seen', hseen', hlong⟩ := hseen.handleFrame hrecorded hnow hread hframe
  have hgrow := hseen'.grows c.reread (by omega)
  rw [hdone c.reread (by omega)] at hgrow
  have hlen := hlong rfl
  rw [hdone c.measured hnow] at hlen
  rw [hposts, ← List.append_assoc, copyOf_append, List.foldl_cons, List.foldl_nil, applyPost,
    if_pos rfl, hdone c.reread (by omega)]
  exact hseen'.mirrors.overlay_head hgrow (Nat.le_antisymm hlen hgrow.1)

/-- Whatever the recorder has gone through: when the uploader is still running behind the tail of
a segment, the copy that its posts give is the file of the segment, if the file has only grown,
its first kilobyte apart, and does not change any more. -/
theorem upload_complete {ctx : RecorderContext} {stamp : Nat → String}
    {files : Table String (List EncodedVideoFrame)} {messages : List VideoFrame} {start : Nat}
    (hqueue : (es ++ [(RecordState.writeTail, c)]).map Prod.fst <+:
      (Recorder.new files).states ctx stamp messages)
    (htimes : Timely (es ++ [(RecordState.writeTail, c)]))
    (hrunning : (run (RecordUploader.step paths file) ({ lastSend := start }, [])
      (es ++ [(RecordState.writeTail, c)])).1.running = true) :
    ∃ path, run follow none (es.map Prod.fst) = some path ∧
      (Recorded file path → (∀ t, c.now ≤ t → file path t = file path c.now) →
        ∃ name, RecordUploader.fileName paths path = some name ∧
          copyOf name (run (RecordUploader.step paths file) ({ lastSend := start }, [])
            (es ++ [(RecordState.writeTail, c)])).2 = file path c.now) := by
  have hsub : Timely es := ⟨fun e he => htimes.each e (List.mem_append_left _ he),
    (List.pairwise_append.mp htimes.order).1⟩
  obtain ⟨rest, hrest⟩ := hqueue
  have hall : Allowed follow Follows none ((Recorder.new files).states ctx stamp messages) :=
    Recorder.allowed_states messages (Recorder.new files)
  rw [← hrest, List.map_append, List.append_assoc, allowed_append] at hall
  obtain ⟨path, hpath⟩ := Option.ne_none_iff_exists'.mp hall.2.1
  refine ⟨path, hpath, fun hrecorded hdone => ?_⟩
  rw [run_append] at hrunning ⊢
  exact copyOf_step_writeTail (uploading_run start hsub) htimes hpath hrecorded hdone hrunning

/-- A file that the muxer has begun, and then finished. -/
def sampleFile (_ : String) (t : Nat) : List UInt8 := if t < 4 then [1] else [2, 3]

/-- A state that takes four units of time. -/
def sampleCircumstances (start : Nat) : Circumstances where
  now := start
  measured := start + 1
  read := start + 2
  sent := start + 3
  reread := start + 3

theorem slash_beq_slash : ('/' == '/') = true := rfl

theorem colon_beq_slash : (':' == '/') = false := rfl

theorem isAlpha_slash (c : Char) (hc : (c == '/') = true) : c.isAlpha = false := by
  rw [beq_iff_eq] at hc
  subst hc
  decide

def samplePaths : PathConvention where
  isSeparator c := c == '/'
  mainSeparator := '/'
  drives := false
  isSeparator_main := slash_beq_slash
  isSeparator_colon := colon_beq_slash
  isSeparator_alpha := isAlpha_slash

def sampleStates : List (RecordState × Circumstances) :=
  [(.newFile (setFilename Recorder.ownScreen (Recorder.plainStamp 0) .vp9),
      sampleCircumstances 0), (.newFrame, sampleCircumstances 4)]

theorem upload_complete_sample :
    ∃ name, copyOf name (run (RecordUploader.step samplePaths sampleFile) ({ lastSend := 0 }, [])
      (sampleStates ++ [(.writeTail, sampleCircumstances 8)])).2 = [2, 3] := by
  have htimes : Timely (sampleStates ++ [(.writeTail, sampleCircumstances 8)]) := by
    constructor
    · simp [sampleStates, sampleCircumstances]
    · simp [sampleStates, sampleCircumstances]
  have hqueue : (sampleStates ++ [(RecordState.writeTail, sampleCircumstances 8)]).map Prod.fst <+:
      (Recorder.new ∅).states Recorder.ownScreen Recorder.plainStamp
        [Recorder.keyMessage 640 0 0] := by decide +kernel
  have hrunning : (run (RecordUploader.step samplePaths sampleFile) ({ lastSend := 0 }, [])
      (sampleStates ++ [(.writeTail, sampleCircumstances 8)])).1.running = true := by
    decide +kernel
  obtain ⟨path, -, hcopy⟩ := upload_complete hqueue htimes hrunning
  have hrecorded : Recorded sampleFile path := by
    intro t t' ht
    unfold sampleFile
    split_ifs
    · exact GrowsBehind.refl _ _
    · refine ⟨by decide, fun i hi hlt => ?_⟩
      have hone : i < 1 := hlt
      exact absurd hi (by unfold maxHeaderLen; omega)
    · omega
    · exact GrowsBehind.refl _ _
  have hdone : ∀ t, (sampleCircumstances 8).now ≤ t →
      sampleFile path t = sampleFile path (sampleCircumstances 8).now := by
    intro t ht
    have hlate : ¬ t < 4 := by
      have height : 8 ≤ t := ht
      omega
    unfold sampleFile
    rw [if_neg hlate, if_neg (by decide)]
  obtain ⟨name, -, hname⟩ := hcopy hrecorded hdone
  exact ⟨name, hname⟩

end Run

end Recording

end MDesk
