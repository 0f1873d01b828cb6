import MDesk.Core.Run
import MDesk.Core.Table

/-!
# The recorder

A recording is a row of segments, each a file of its own: a new one is begun for another size
or codec, and when the time stamps of the frames go back. Its name tells the codec and the
millisecond, and a segment without a frame is deleted by its name.
-/

namespace MDesk

open Core

namespace Recording

inductive CodecFormat where
  | vp8
  | vp9
  | av1
  | h264
  | h265
  | unknown
deriving DecidableEq

/-- The codec in the name of a file. -/
def CodecFormat.lower : CodecFormat → String
  | .vp8 => "vp8"
  | .vp9 => "vp9"
  | .av1 => "av1"
  | .h264 => "h264"
  | .h265 => "h265"
  | .unknown => "unknown"

def CodecFormat.extension : CodecFormat → String
  | .vp8 | .vp9 | .av1 => "webm"
  | _ => "mp4"

/-- The white space that `trim` takes. -/
def isWhitespace (c : Char) : Bool :=
  let n := c.toNat
  decide (0x9 ≤ n ∧ n ≤ 0xd) || decide (0x2000 ≤ n ∧ n ≤ 0x200a) ||
    [0x20, 0x85, 0xa0, 0x1680, 0x2028, 0x2029, 0x202f, 0x205f, 0x3000].contains n

def isControl (c : Char) : Bool := decide (c.toNat < 0x20 ∨ 0x7f ≤ c.toNat ∧ c.toNat ≤ 0x9f)

def maxFilenameComponentChars : Nat := 48

def sanitizeFileComponent (value : String) : String :=
  let trimmed := ((value.toList.dropWhile isWhitespace).reverse.dropWhile isWhitespace).reverse
  let sanitized := (trimmed.map fun c =>
    if isControl c || "<>:\"/\\|?*".toList.contains c then '_' else c).take
      maxFilenameComponentChars
  String.ofList (sanitized.reverse.dropWhile fun c => c == ' ' || c == '.').reverse

def requiredFileComponent (value : String) : String :=
  if sanitizeFileComponent value = "" then "unknown" else sanitizeFileComponent value

structure RecorderContext where
  server : Bool
  id : String
  deviceName : String
  dir : String
  displayIdx : Nat
  camera : Bool

/-- The size and the codec of a segment, and its file. -/
structure RecorderContext2 where
  filename : String
  width : Nat
  height : Nat
  format : CodecFormat
deriving DecidableEq

/-- The name of a segment; `timestamp` is the local time to the millisecond. -/
def setFilename (ctx : RecorderContext) (timestamp : String) (format : CodecFormat) : String :=
  let deviceName := if ctx.server then "" else sanitizeFileComponent ctx.deviceName
  ctx.dir ++ "/" ++ (if ctx.server then "incoming" else "outgoing") ++ "_" ++
    requiredFileComponent ctx.id ++ "_" ++ timestamp ++ "_" ++
    (if ctx.camera then "camera" else "display") ++ toString ctx.displayIdx ++ "_" ++
    format.lower ++ (if deviceName = "" then "" else "_" ++ deviceName) ++ "." ++
    format.extension

/-- No codec's name begins another's. -/
theorem lower_prefix (format format' : CodecFormat)
    (h : format.lower.toList <+: format'.lower.toList) : format = format' := by
  cases format <;> cases format' <;> first | rfl | exact absurd h (by decide)

theorem append_inj {s t s' t' : String} (h : s ++ t = s' ++ t')
    (hlength : s.toList.length = s'.toList.length) : s = s' ∧ t = t' := by
  have hlists := congrArg String.toList h
  simp only [String.toList_append] at hlists
  obtain ⟨hs, ht⟩ := List.append_inj hlists hlength
  exact ⟨String.toList_inj.mp hs, String.toList_inj.mp ht⟩

/-- Two names of a recording are one exactly if the time and the codec are. -/
theorem setFilename_eq_iff {ctx : RecorderContext} {timestamp timestamp' : String}
    {format format' : CodecFormat} (hlength : timestamp.toList.length = timestamp'.toList.length) :
    setFilename ctx timestamp format = setFilename ctx timestamp' format' ↔
      timestamp = timestamp' ∧ format = format' := by
  refine ⟨fun heq => ?_, fun ⟨htime, hformat⟩ => by rw [htime, hformat]⟩
  unfold setFilename at heq
  simp only [String.append_assoc, String.append_right_inj] at heq
  obtain ⟨htime, hrest⟩ := append_inj heq hlength
  simp only [String.append_right_inj] at hrest
  refine ⟨htime, ?_⟩
  have hlists := congrArg String.toList hrest
  rw [String.toList_append] at hlists
  have hother := hlists.symm
  rw [String.toList_append] at hother
  rcases List.prefix_or_prefix_of_prefix ⟨_, hother⟩ ⟨_, rfl⟩ with h | h
  · have hlower := lower_prefix _ _ h
    exact hlower.symm
  · exact lower_prefix _ _ h

/-- How the opening of a segment goes: there may be no directory for it, no file, or no muxer
for the file. -/
inductive Opening where
  | created
  | noDirectory
  | noFile
  | noMuxer
deriving DecidableEq

/-- The file is there and empty. -/
def Opening.truncates : Opening → Bool
  | .created | .noMuxer => true
  | _ => false

/-- A frame. Where it begins a new segment, `now` is the reading of the clock and `opening` what
comes of it; `added` is the muxer's answer. -/
structure EncodedVideoFrame where
  data : List UInt8
  pts : Int
  key : Bool
  now : Nat
  opening : Opening
  added : Bool
deriving DecidableEq

/-- A message of frames, with the reading of the clock for the segment it may begin. -/
structure VideoFrame where
  frames : List EncodedVideoFrame
  width : Nat
  height : Nat
  format : CodecFormat
  now : Nat
  opening : Opening
deriving DecidableEq

/-- The segment being written. -/
structure OpenSegment where
  filename : String
  key : Bool
  written : Bool
deriving DecidableEq

/-- The recorder with the files, each the frames in it. The segments with the frames written to
them are for the proofs only; the last of them is the one being written. -/
structure Recorder where
  inner : Option OpenSegment
  ctx2 : Option RecorderContext2
  pts : Option Int
  checkFailed : Bool
  files : Table String (List EncodedVideoFrame)
  segments : List (String × List EncodedVideoFrame)

namespace Recorder

/-- A new recorder, over the files there are. -/
def new (files : Table String (List EncodedVideoFrame)) : Recorder :=
  { inner := none, ctx2 := none, pts := none, checkFailed := false, files, segments := [] }

/-- The segment is closed, and deleted if nothing was written to it. -/
def drop (r : Recorder) : Recorder :=
  match r.inner with
  | some segment =>
    if segment.written then { r with inner := none }
    else { r with inner := none, files := r.files.remove segment.filename }
  | none => r

/-- A file that is there is truncated. -/
def create (r : Recorder) (filename : String) (opening : Opening) : Recorder × Bool :=
  match opening with
  | .created =>
    ({ r with
      inner := some ⟨filename, false, false⟩, pts := none
      files := r.files.insert filename [], segments := r.segments ++ [(filename, [])] }, true)
  | .noMuxer => ({ r with files := r.files.insert filename [] }, false)
  | _ => (r, false)

/-- The frame goes into the last segment. -/
def append (segments : List (String × List EncodedVideoFrame)) (frame : EncodedVideoFrame) :
    List (String × List EncodedVideoFrame) :=
  segments.dropLast ++ segments.getLast?.toList.map fun s => (s.1, s.2 ++ [frame])

/-- Nothing is written before the first key frame of a segment. -/
def writeVideo (r : Recorder) (frame : EncodedVideoFrame) : Recorder :=
  match r.inner with
  | some segment =>
    if (segment.key || frame.key) && frame.added then
      { r with
        inner := some ⟨segment.filename, true, true⟩
        files := r.files.insert segment.filename
          ((r.files.get segment.filename).getD [] ++ [frame])
        segments := append r.segments frame }
    else { r with inner := some { segment with key := segment.key || frame.key } }
  | none => r

variable (ctx : RecorderContext) (stamp : Nat → String)

/-- The file of the segment to be begun for a size and a codec, if it is not the one being
written. -/
def opens (r : Recorder) (width height : Nat) (format : CodecFormat) (now : Nat) :
    Option String :=
  match r.ctx2 with
  | some ctx2 =>
    if ctx2.width ≠ width ∨ ctx2.height ≠ height ∨ ctx2.format ≠ format then
      some (setFilename ctx (stamp now) format)
    else if r.inner = none then some ctx2.filename
    else none
  | none => some (setFilename ctx (stamp now) format)

def check (r : Recorder) (width height : Nat) (format : CodecFormat) (now : Nat)
    (opening : Opening) : Recorder × Bool :=
  match r.opens ctx stamp width height format now with
  | some filename =>
    if opening = .noDirectory then (r, false)
    else { r.drop with ctx2 := some ⟨filename, width, height, format⟩ }.create filename opening
  | none => (r, true)

/-- The time stamps go back. -/
def rotates (r : Recorder) (frame : EncodedVideoFrame) : Prop := frame.pts < r.pts.getD 0

instance (r : Recorder) (frame : EncodedVideoFrame) : Decidable (r.rotates frame) :=
  inferInstanceAs (Decidable (_ < _))

/-- The segment ends with a frame that belongs to the next one. -/
def finish (r : Recorder) (frame : EncodedVideoFrame) : Recorder :=
  { r.drop with ctx2 := none, pts := some frame.pts }

def checkPts (r : Recorder) (frame : EncodedVideoFrame) (width height : Nat)
    (format : CodecFormat) : Recorder × Bool :=
  if r.pts = none ∧ frame.key = false then (r, false)
  else if r.rotates frame then
    let checked := (r.finish frame).check ctx stamp width height format frame.now frame.opening
    if checked.2 then ({ checked.1 with pts := some frame.pts }, true)
    else ({ checked.1 with checkFailed := true }, false)
  else ({ r with pts := some frame.pts }, true)

/-- The first frame that is refused ends the message. -/
def writeFrames (r : Recorder) (width height : Nat) (format : CodecFormat) :
    List EncodedVideoFrame → Recorder
  | [] => r
  | frame :: frames =>
    let checked := r.checkPts ctx stamp frame width height format
    if checked.2 then (checked.1.writeVideo frame).writeFrames width height format frames
    else checked.1

def writeFrame (r : Recorder) (message : VideoFrame) : Recorder :=
  if r.checkFailed ∨ message.format = .unknown then r
  else
    let checked := r.check ctx stamp message.width message.height message.format message.now
      message.opening
    if checked.2 then
      checked.1.writeFrames ctx stamp message.width message.height message.format message.frames
    else { checked.1 with checkFailed := true }

/-- No segment with a frame has the name. -/
def Unused (r : Recorder) (filename : String) : Prop :=
  ∀ segment ∈ r.segments, segment.2 ≠ [] → segment.1 ≠ filename

instance (r : Recorder) (filename : String) : Decidable (r.Unused filename) :=
  inferInstanceAs (Decidable (∀ segment ∈ r.segments, segment.2 ≠ [] → segment.1 ≠ filename))

/-- The segments that the frames begin have names of their own. -/
def FramesFresh (r : Recorder) (width height : Nat) (format : CodecFormat) :
    List EncodedVideoFrame → Prop
  | [] => True
  | frame :: frames =>
    ((r.pts ≠ none ∨ frame.key = true) → r.rotates frame → frame.opening.truncates →
      r.Unused (setFilename ctx (stamp frame.now) format)) ∧
    ((r.checkPts ctx stamp frame width height format).2 = true →
      ((r.checkPts ctx stamp frame width height format).1.writeVideo frame).FramesFresh width
        height format frames)

instance decidableFramesFresh (width height : Nat) (format : CodecFormat) (r : Recorder)
    (frames : List EncodedVideoFrame) :
    Decidable (r.FramesFresh ctx stamp width height format frames) :=
  match frames with
  | [] => .isTrue trivial
  | frame :: frames =>
    have := decidableFramesFresh width height format
      ((r.checkPts ctx stamp frame width height format).1.writeVideo frame) frames
    inferInstanceAs (Decidable ((_ → _ → _ → _) ∧ (_ → _)))

/-- Every segment that the message begins has a name that no earlier one with a frame has. -/
def Fresh (r : Recorder) (message : VideoFrame) : Prop :=
  r.checkFailed = true ∨ message.format = .unknown ∨
    (∀ filename ∈ r.opens ctx stamp message.width message.height message.format message.now,
      message.opening.truncates → r.Unused filename) ∧
    ((r.check ctx stamp message.width message.height message.format message.now
      message.opening).2 = true →
      (r.check ctx stamp message.width message.height message.format message.now
        message.opening).1.FramesFresh ctx stamp message.width message.height message.format
          message.frames)

instance (r : Recorder) (message : VideoFrame) : Decidable (r.Fresh ctx stamp message) :=
  inferInstanceAs (Decidable (_ ∨ _ ∨ (∀ filename ∈ _, _ → _) ∧ (_ → _)))

/-- Every segment with a frame is there, with all its frames. -/
def Kept (r : Recorder) : Prop :=
  ∀ segment ∈ r.segments, segment.2 ≠ [] → r.files.get segment.1 = some segment.2

/-- What holds while a segment is being written. -/
structure Inv (r : Recorder) : Prop where
  kept : r.Kept
  inner : ∀ segment ∈ r.inner, ∃ closed frames,
    r.segments = closed ++ [(segment.filename, frames)] ∧
    (segment.written = true ↔ frames ≠ []) ∧
    r.files.get segment.filename = some frames ∧
    ∀ other ∈ closed, other.2 ≠ [] → other.1 ≠ segment.filename

variable {ctx stamp} {r : Recorder} {frame : EncodedVideoFrame} {filename : String}
  {opening : Opening}

theorem Unused.drop (h : r.Unused filename) : r.drop.Unused filename := by
  unfold Recorder.drop
  split
  · split_ifs
    · exact h
    · exact h
  · exact h

theorem inner_drop : r.drop.inner = none := by
  unfold Recorder.drop
  split
  · split_ifs
    · rfl
    · rfl
  · assumption

/-- Closing a segment deletes no frame. -/
theorem Inv.drop (h : r.Inv) : r.drop.Inv := by
  unfold Recorder.drop
  split
  · rename_i segment hsegment
    split_ifs with hwritten
    · exact ⟨h.kept, fun _ hnone => by cases hnone⟩
    · obtain ⟨closed, frames, hsegments, hiff, -, hother⟩ := h.inner segment hsegment
      refine ⟨fun s hs hframes => ?_, fun _ hnone => by cases hnone⟩
      have hne : s.1 ≠ segment.filename := by
        simp only [hsegments] at hs
        rcases List.mem_append.mp hs with hs | hs
        · exact hother s hs hframes
        · rw [List.mem_singleton.mp hs] at hframes
          exact absurd (hiff.mpr hframes) hwritten
      simp only [Table.get_remove, if_neg hne]
      exact h.kept s hs hframes
  · exact h

/-- A segment begun under a name not in use takes no other's frames. -/
theorem Inv.create (h : r.Inv) (hinner : r.inner = none)
    (hunused : opening.truncates → r.Unused filename) : (r.create filename opening).1.Inv := by
  have hkept (htruncates : opening.truncates) (s : String × List EncodedVideoFrame)
      (hs : s ∈ r.segments) (hframes : s.2 ≠ []) :
      (r.files.insert filename []).get s.1 = some s.2 := by
    rw [Table.get_insert_ne (hunused htruncates s hs hframes)]
    exact h.kept s hs hframes
  unfold Recorder.create
  split
  · have hunused := hunused rfl
    refine ⟨fun s hs hframes => ?_, fun segment hsegment => ?_⟩
    · rcases List.mem_append.mp hs with hs | hs
      · exact hkept rfl s hs hframes
      · rw [List.mem_singleton.mp hs] at hframes
        exact absurd rfl hframes
    · obtain rfl := Option.some.inj hsegment
      exact ⟨r.segments, [], rfl, by simp, Table.get_insert_self, hunused⟩
  · exact ⟨hkept rfl, fun segment hsegment => by simp [hinner] at hsegment⟩
  · exact h

theorem Inv.writeVideo (h : r.Inv) : (r.writeVideo frame).Inv := by
  unfold Recorder.writeVideo
  split
  · rename_i segment hsegment
    obtain ⟨closed, frames, hsegments, hiff, hfile, hother⟩ := h.inner segment hsegment
    split_ifs with hwrites
    · have happend : append r.segments frame =
          closed ++ [(segment.filename, frames ++ [frame])] := by
        simp [append, hsegments]
      refine ⟨fun s hs hframes => ?_, fun s hs => ?_⟩
      · simp only [happend, hfile, Option.getD_some] at hs ⊢
        rcases List.mem_append.mp hs with hs | hs
        · rw [Table.get_insert_ne (hother s hs hframes)]
          exact h.kept s (hsegments ▸ List.mem_append_left _ hs) hframes
        · rw [List.mem_singleton.mp hs, Table.get_insert_self]
      · obtain rfl := Option.some.inj hs
        refine ⟨closed, frames ++ [frame], happend, by simp, ?_, hother⟩
        simp only [hfile, Option.getD_some, Table.get_insert_self]
    · refine ⟨h.kept, fun s hs => ?_⟩
      obtain rfl := Option.some.inj hs
      exact ⟨closed, frames, hsegments, hiff, hfile, hother⟩
  · exact h

theorem Inv.check (h : r.Inv) {width height now : Nat} {format : CodecFormat}
    (hunused : ∀ filename ∈ r.opens ctx stamp width height format now,
      opening.truncates → r.Unused filename) :
    (r.check ctx stamp width height format now opening).1.Inv := by
  unfold Recorder.check
  split
  · rename_i filename hfilename
    split_ifs
    · exact h
    · have hnext :
          ({ r.drop with ctx2 := some ⟨filename, width, height, format⟩ } : Recorder).Inv :=
        ⟨h.drop.kept, h.drop.inner⟩
      exact hnext.create inner_drop fun htruncates => (hunused filename hfilename htruncates).drop
  · exact h

theorem Inv.checkPts (h : r.Inv) {width height : Nat} {format : CodecFormat}
    (hunused : (r.pts ≠ none ∨ frame.key = true) → r.rotates frame → frame.opening.truncates →
      r.Unused (setFilename ctx (stamp frame.now) format)) :
    (r.checkPts ctx stamp frame width height format).1.Inv := by
  unfold Recorder.checkPts
  split_ifs with hrefused hrotates
  · exact h
  · have hkey : r.pts ≠ none ∨ frame.key = true := by
      by_contra hnot
      rw [not_or, not_not, Bool.not_eq_true] at hnot
      exact hrefused hnot
    have hfinish : (r.finish frame).Inv := ⟨h.drop.kept, h.drop.inner⟩
    have hchecked : ((r.finish frame).check ctx stamp width height format frame.now
        frame.opening).1.Inv := by
      refine hfinish.check fun filename hfilename htruncates => ?_
      obtain rfl : setFilename ctx (stamp frame.now) format = filename := Option.some.inj hfilename
      exact (hunused hkey hrotates htruncates).drop
    dsimp only
    split_ifs
    · exact ⟨hchecked.kept, hchecked.inner⟩
    · exact ⟨hchecked.kept, hchecked.inner⟩
  · exact ⟨h.kept, h.inner⟩

theorem Inv.writeFrames {width height : Nat} {format : CodecFormat}
    {frames : List EncodedVideoFrame} (h : r.Inv)
    (hfresh : r.FramesFresh ctx stamp width height format frames) :
    (r.writeFrames ctx stamp width height format frames).Inv := by
  induction frames generalizing r with
  | nil => exact h
  | cons frame frames ih =>
    obtain ⟨hunused, hrest⟩ := hfresh
    have hchecked : (r.checkPts ctx stamp frame width height format).1.Inv := h.checkPts hunused
    unfold Recorder.writeFrames
    dsimp only
    split_ifs with hok
    · exact ih hchecked.writeVideo (hrest hok)
    · exact hchecked

theorem Inv.writeFrame (h : r.Inv) {message : VideoFrame} (hfresh : r.Fresh ctx stamp message) :
    (r.writeFrame ctx stamp message).Inv := by
  unfold Recorder.writeFrame
  dsimp only
  split_ifs with hrefused hok
  · exact h
  · rw [not_or] at hrefused
    obtain ⟨hunused, hframes⟩ := (hfresh.resolve_left hrefused.1).resolve_left hrefused.2
    exact (h.check hunused).writeFrames (hframes hok)
  · rw [not_or] at hrefused
    obtain ⟨hunused, -⟩ := (hfresh.resolve_left hrefused.1).resolve_left hrefused.2
    exact ⟨(h.check hunused).kept, (h.check hunused).inner⟩

/-- When every segment is begun under a name that no earlier segment with a frame has, every
segment with a frame is there behind the recorder's end, with all its frames. -/
theorem segments_kept {files : Table String (List EncodedVideoFrame)} {messages : List VideoFrame}
    (hfresh : Allowed (writeFrame ctx stamp) (Fresh ctx stamp) (new files) messages) :
    (run (writeFrame ctx stamp) (new files) messages).drop.Kept := by
  have hnew : (new files).Inv := ⟨fun s hs => (by cases hs), fun s hs => (by cases hs)⟩
  exact (run_keeps (fun _ _ h hfresh => h.writeFrame hfresh) hnew hfresh).drop.kept

/-- A recording of the host's own screen. -/
def ownScreen : RecorderContext := ⟨true, "1", "", "/recordings", 0, false⟩

/-- A key frame, at a reading of the clock. -/
def keyFrame (pts : Int) (now : Nat) : EncodedVideoFrame :=
  { data := [0], pts, key := true, now, opening := .created, added := true }

def keyMessage (width pts now : Nat) : VideoFrame :=
  { frames := [keyFrame pts now], width, height := 1, format := .vp9, now, opening := .created }

/-- A clock with one text for each millisecond. -/
def plainStamp (now : Nat) : String := String.ofList (List.replicate now '0')

theorem segments_kept_sample :
    (run (writeFrame ownScreen plainStamp) (new ∅)
      [keyMessage 640 0 0, keyMessage 800 1 1]).drop.Kept :=
  segments_kept (by decide +kernel)

/-- The screen changes its size within a millisecond of the segment's beginning, and the second
segment takes the file of the first. -/
theorem same_millisecond_truncates : ¬(run (writeFrame ownScreen plainStamp) (new ∅)
    [keyMessage 640 0 0, keyMessage 800 1 0]).drop.Kept := by
  unfold Kept
  decide +kernel

end Recorder

end Recording

end MDesk
