import Mathlib.Algebra.Group.Int.Defs
import Mathlib.Algebra.Group.Nat.Defs
import Mathlib.Data.List.TakeWhile
import MDesk.Recording.Recorder

/-!
# What the muxer gets

Each segment has a muxer, which is told a size and a codec and gets frames with time stamps. The
frames in front of the first key frame are held back. A time stamp is a cast and a product, and the
muxer's answer is not looked at, so it depends on the frames whether they get there as they are.
-/

namespace MDesk

open Core

namespace Recording

/-- `frame.pts as u64`. -/
def asU64 (pts : Int) : Nat := (pts % 2 ^ 64).toNat

/-- `frame.pts as u64 * 1_000_000`, or nothing where it overflows. -/
def timestamp (pts : Int) : Option Nat :=
  if asU64 pts * 1000000 < 2 ^ 64 then some (asU64 pts * 1000000) else none

/-- A time stamp counts the nanoseconds of a `pts` that is not negative and not too large. -/
theorem timestamp_iff {pts : Int} (hmin : -2 ^ 63 ≤ pts) (hmax : pts < 2 ^ 63) :
    (∃ t : Nat, timestamp pts = some t ∧ (t : Int) = pts * 1000000) ↔
      0 ≤ pts ∧ pts ≤ 18446744073709 := by
  unfold timestamp asU64
  constructor
  · rintro ⟨t, ht, heq⟩
    split_ifs at ht with hfits
    obtain rfl := Option.some.inj ht
    omega
  · rintro ⟨hnonneg, hle⟩
    refine ⟨_, if_pos ?_, ?_⟩ <;> omega

/-- A frame with the size and the codec of its message. -/
structure Taken where
  frame : EncodedVideoFrame
  width : Nat
  height : Nat
  format : CodecFormat
deriving DecidableEq

def VideoFrame.taken (message : VideoFrame) : List Taken :=
  message.frames.map fun frame => ⟨frame, message.width, message.height, message.format⟩

/-- A segment: what the muxer is told, and the frames that are passed to the segment. -/
structure Track where
  width : Nat
  height : Nat
  format : CodecFormat
  passed : List Taken := []
deriving DecidableEq

namespace Track

/-- The frames that the muxer gets. -/
def handed (t : Track) : List Taken := t.passed.dropWhile fun x => !x.frame.key

/-- The frames that the muxer takes. -/
def written (t : Track) : List Taken := t.handed.filter fun x => x.frame.added

/-- The frames have the size and the codec of the segment, and their times do not go back. -/
structure Uniform (t : Track) : Prop where
  size : ∀ x ∈ t.passed, x.width = t.width ∧ x.height = t.height ∧ x.format = t.format
  ordered : t.passed.Pairwise fun x y => x.frame.pts ≤ y.frame.pts

end Track

/-- What came of a message: whether it was written, and how many of its frames were passed on. -/
structure Answer where
  message : VideoFrame
  ok : Bool
  count : Nat

/-- The recorder, with its segments and answers for the proofs. -/
structure Muxing where
  recorder : Recorder
  tracks : List Track := []
  answers : List Answer := []

namespace Muxing

variable (ctx : RecorderContext) (stamp : Nat → String)

/-- The segment that is begun, if one is. -/
def begun (opened : Bool) (t : Track) : List Track := if opened then [t] else []

def check (s : Muxing) (width height : Nat) (format : CodecFormat) (now : Nat)
    (opening : Opening) : Muxing × Bool :=
  let checked := s.recorder.check ctx stamp width height format now opening
  let opened := (s.recorder.opens ctx stamp width height format now).isSome && checked.2
  ({ s with
    recorder := checked.1
    tracks := s.tracks ++ begun opened ⟨width, height, format, []⟩ }, checked.2)

/-- The frame goes to the last segment. -/
def pass (tracks : List Track) (x : Taken) : List Track :=
  tracks.dropLast ++ tracks.getLast?.toList.map fun t => { t with passed := t.passed ++ [x] }

def writeVideo (s : Muxing) (x : Taken) : Muxing :=
  { s with
    recorder := s.recorder.writeVideo x.frame
    tracks := if s.recorder.inner = none then s.tracks else pass s.tracks x }

def checkPts (s : Muxing) (x : Taken) : Muxing × Bool :=
  if s.recorder.pts = none ∧ x.frame.key = false then (s, false)
  else if s.recorder.rotates x.frame then
    let checked := ({ s with recorder := s.recorder.finish x.frame } : Muxing).check ctx stamp
      x.width x.height x.format x.frame.now x.frame.opening
    if checked.2 then
      ({ checked.1 with recorder := { checked.1.recorder with pts := some x.frame.pts } }, true)
    else ({ checked.1 with recorder := { checked.1.recorder with checkFailed := true } }, false)
  else ({ s with recorder := { s.recorder with pts := some x.frame.pts } }, true)

/-- The frames of a message, with the answer and the number of those that were passed on. -/
def writeFrames (s : Muxing) : List Taken → Muxing × Bool × Nat
  | [] => (s, true, 0)
  | x :: xs =>
    let checked := s.checkPts ctx stamp x
    if checked.2 then
      let rest := (checked.1.writeVideo x).writeFrames xs
      (rest.1, rest.2.1, rest.2.2 + 1)
    else (checked.1, false, 0)

def answer (s : Muxing) (message : VideoFrame) (ok : Bool) (count : Nat) : Muxing :=
  { s with answers := s.answers ++ [⟨message, ok, count⟩] }

def writeFrame (s : Muxing) (message : VideoFrame) : Muxing :=
  if s.recorder.checkFailed ∨ message.format = .unknown then s.answer message false 0
  else
    let checked := s.check ctx stamp message.width message.height message.format message.now
      message.opening
    if checked.2 then
      let written := checked.1.writeFrames ctx stamp message.taken
      written.1.answer message written.2.1 written.2.2
    else
      ({ checked.1 with recorder := { checked.1.recorder with checkFailed := true } } :
        Muxing).answer message false 0

variable {s : Muxing} {x : Taken}

/-! ## The recorder -/

theorem checkPts_recorder (s : Muxing) (x : Taken) :
    (s.checkPts ctx stamp x).1.recorder =
        (s.recorder.checkPts ctx stamp x.frame x.width x.height x.format).1 ∧
      (s.checkPts ctx stamp x).2 =
        (s.recorder.checkPts ctx stamp x.frame x.width x.height x.format).2 := by
  unfold checkPts Recorder.checkPts check
  dsimp only
  split_ifs <;> exact ⟨rfl, rfl⟩

theorem writeFrames_recorder (s : Muxing) (width height : Nat) (format : CodecFormat)
    (frames : List EncodedVideoFrame) :
    (s.writeFrames ctx stamp
      (frames.map fun frame => ⟨frame, width, height, format⟩)).1.recorder =
        s.recorder.writeFrames ctx stamp width height format frames := by
  induction frames generalizing s with
  | nil => rfl
  | cons frame frames ih =>
    obtain ⟨hrecorder, hok⟩ := checkPts_recorder ctx stamp s
      ⟨frame, width, height, format⟩
    rw [List.map_cons, writeFrames, Recorder.writeFrames]
    dsimp only at hrecorder hok ⊢
    rw [hok]
    split_ifs
    · rw [ih]
      simp only [writeVideo, hrecorder]
    · exact hrecorder

/-- The recorder is the one without segments and answers. -/
theorem writeFrame_recorder (s : Muxing) (message : VideoFrame) :
    (s.writeFrame ctx stamp message).recorder = s.recorder.writeFrame ctx stamp message := by
  unfold writeFrame Recorder.writeFrame check
  dsimp only
  split_ifs
  · rfl
  · exact writeFrames_recorder ctx stamp _ message.width message.height message.format
      message.frames
  · rfl

/-! ## Segments -/

/-- What holds between the frames. -/
structure Inv (s : Muxing) : Prop where
  uniform : ∀ t ∈ s.tracks, t.Uniform
  segments : s.recorder.segments.map Prod.snd =
    s.tracks.map fun t => t.written.map Taken.frame
  current : ∀ segment ∈ s.recorder.inner, ∃ closed t, s.tracks = closed ++ [t] ∧
    (segment.key = true ↔ ∃ x ∈ t.passed, x.frame.key = true) ∧
    (∃ filename, s.recorder.ctx2 = some ⟨filename, t.width, t.height, t.format⟩) ∧
    ∀ x ∈ t.passed, ∃ pts ∈ s.recorder.pts, x.frame.pts ≤ pts

/-- A segment of a size and a codec is being written. -/
def Serves (s : Muxing) (width height : Nat) (format : CodecFormat) : Prop :=
  s.recorder.inner ≠ none ∧
    ∃ filename, s.recorder.ctx2 = some ⟨filename, width, height, format⟩

theorem drop_fields (r : Recorder) :
    r.drop.segments = r.segments ∧ r.drop.ctx2 = r.ctx2 ∧ r.drop.pts = r.pts := by
  unfold Recorder.drop
  split
  · split_ifs <;> exact ⟨rfl, rfl, rfl⟩
  · exact ⟨rfl, rfl, rfl⟩

/-- A segment that serves is one that is not begun again. -/
theorem serves_of_opens {width height now : Nat} {format : CodecFormat}
    (h : s.recorder.opens ctx stamp width height format now = none) :
    s.Serves width height format := by
  unfold Recorder.opens at h
  split at h
  · rename_i ctx2 hctx2
    split_ifs at h with hother hinner
    · simp only [not_or, not_not] at hother
      obtain ⟨hwidth, hheight, hformat⟩ := hother
      refine ⟨hinner, ctx2.filename, ?_⟩
      rw [hctx2, ← hwidth, ← hheight, ← hformat]
  · cases h

theorem Inv.check (h : s.Inv) (width height : Nat) (format : CodecFormat) (now : Nat)
    (opening : Opening) :
    (s.check ctx stamp width height format now opening).1.Inv ∧
      ((s.check ctx stamp width height format now opening).2 = true →
        (s.check ctx stamp width height format now opening).1.Serves width height format) := by
  obtain ⟨hsegments, -, -⟩ := drop_fields s.recorder
  unfold Muxing.check Recorder.check
  cases hopens : s.recorder.opens ctx stamp width height format now with
  | none =>
    refine ⟨?_, fun _ => serves_of_opens ctx stamp hopens⟩
    simpa [begun] using h
  | some filename =>
    -- a segment that is not begun leaves none open
    have hclosed (files : Table String (List EncodedVideoFrame)) : Inv { s with
        recorder := { s.recorder.drop with
          ctx2 := some ⟨filename, width, height, format⟩, files } } := by
      refine ⟨h.uniform, ?_, fun segment hsegment => ?_⟩
      · rw [← h.segments, ← hsegments]
      · rw [Recorder.inner_drop] at hsegment
        cases hsegment
    cases opening with
    | noDirectory =>
      refine ⟨?_, nofun⟩
      simpa [begun] using h
    | noFile =>
      refine ⟨?_, nofun⟩
      simpa [begun, Recorder.create] using hclosed s.recorder.drop.files
    | noMuxer =>
      refine ⟨?_, nofun⟩
      simpa [begun, Recorder.create] using hclosed (s.recorder.drop.files.insert filename [])
    | created =>
      refine ⟨⟨fun t ht => ?_, ?_, fun segment hsegment => ?_⟩, fun _ => ⟨by simp [Recorder.create],
        filename, by simp [Recorder.create]⟩⟩
      · rcases List.mem_append.mp ht with ht | ht
        · exact h.uniform t ht
        · rw [List.mem_singleton.mp ht]
          exact ⟨nofun, List.Pairwise.nil⟩
      · simp [Recorder.create, begun, hsegments, h.segments, Track.written, Track.handed]
      · obtain rfl : ⟨filename, false, false⟩ = segment := Option.some.inj hsegment
        refine ⟨s.tracks, ⟨width, height, format, []⟩, rfl, by simp, ⟨filename, rfl⟩, nofun⟩

/-- A new segment has no time yet. -/
theorem check_pts {width height now : Nat} {format : CodecFormat} {opening : Opening}
    (hctx2 : s.recorder.ctx2 = none)
    (hok : (s.check ctx stamp width height format now opening).2 = true) :
    (s.check ctx stamp width height format now opening).1.recorder.pts = none := by
  unfold Muxing.check Recorder.check Recorder.opens at hok ⊢
  rw [hctx2] at hok ⊢
  cases opening with
  | created => rfl
  | noDirectory => cases hok
  | noFile => cases hok
  | noMuxer => cases hok

/-- A frame that passes the check goes to a segment of its size, and its time is the last. -/
theorem Inv.checkPts (h : s.Inv) (hserves : s.Serves x.width x.height x.format) :
    (s.checkPts ctx stamp x).1.Inv ∧ ((s.checkPts ctx stamp x).2 = true →
      (s.checkPts ctx stamp x).1.Serves x.width x.height x.format ∧
        (s.checkPts ctx stamp x).1.recorder.pts = some x.frame.pts) := by
  obtain ⟨hsegments, -, -⟩ := drop_fields s.recorder
  unfold Muxing.checkPts
  by_cases hrefused : s.recorder.pts = none ∧ x.frame.key = false
  · rw [if_pos hrefused]
    exact ⟨h, nofun⟩
  · rw [if_neg hrefused]
    by_cases hrotates : s.recorder.rotates x.frame
    · rw [if_pos hrotates]
      have hfinish : Inv { s with recorder := s.recorder.finish x.frame } := by
        refine ⟨h.uniform, ?_, fun segment hsegment => ?_⟩
        · rw [← h.segments, ← hsegments]
          rfl
        · rw [Recorder.finish, Recorder.inner_drop] at hsegment
          cases hsegment
      obtain ⟨hchecked, hserved⟩ := hfinish.check ctx stamp x.width x.height
        x.format x.frame.now x.frame.opening
      dsimp only
      split_ifs with hok
      · refine ⟨⟨hchecked.uniform, hchecked.segments, fun segment hsegment => ?_⟩, fun _ =>
          ⟨hserved hok, rfl⟩⟩
        -- the segment is new, so nothing has been passed to it
        obtain ⟨closed, t, htracks, hkey, hctx2, hpts⟩ := hchecked.current segment hsegment
        refine ⟨closed, t, htracks, hkey, hctx2, fun y hy => ?_⟩
        obtain ⟨pts, hsome, -⟩ := hpts y hy
        rw [check_pts ctx stamp rfl hok] at hsome
        cases hsome
      · exact ⟨⟨hchecked.uniform, hchecked.segments, hchecked.current⟩, nofun⟩
    · rw [if_neg hrotates]
      refine ⟨⟨h.uniform, h.segments, fun segment hsegment => ?_⟩, fun _ => ⟨hserves, rfl⟩⟩
      obtain ⟨closed, t, htracks, hkey, hctx2, hpts⟩ := h.current segment hsegment
      refine ⟨closed, t, htracks, hkey, hctx2, fun y hy => ⟨_, rfl, ?_⟩⟩
      obtain ⟨pts, hsome, hle⟩ := hpts y hy
      rw [Recorder.rotates, hsome, Option.getD_some] at hrotates
      omega

/-- What a frame adds to the frames that the muxer takes. -/
theorem written_concat (t : Track) (x : Taken) :
    ({ t with passed := t.passed ++ [x] } : Track).written = t.written ++
      if ((∃ y ∈ t.passed, y.frame.key = true) ∨ x.frame.key = true) ∧ x.frame.added = true then
        [x] else [] := by
  simp only [Track.written, Track.handed, List.dropWhile_append]
  by_cases hkey : ∃ y ∈ t.passed, y.frame.key = true
  · have hsome : (t.passed.dropWhile fun y => !y.frame.key) ≠ [] := by
      rw [Ne, List.dropWhile_eq_nil_iff]
      intro hnone
      obtain ⟨y, hy, hkeyed⟩ := hkey
      simpa [hkeyed] using hnone y hy
    rw [if_neg (by simpa using hsome), List.filter_append]
    cases hadded : x.frame.added <;> simp [hkey, hadded]
  · have hnone : (t.passed.dropWhile fun y => !y.frame.key) = [] := by
      rw [List.dropWhile_eq_nil_iff]
      intro y hy
      rw [Bool.not_eq_true', ← Bool.not_eq_true]
      exact fun hkeyed => hkey ⟨y, hy, hkeyed⟩
    rw [hnone]
    cases hframe : x.frame.key <;> cases hadded : x.frame.added <;> simp [hkey, hframe, hadded]

theorem writeVideo_fields (s : Muxing) (x : Taken) :
    (s.writeVideo x).recorder.ctx2 = s.recorder.ctx2 ∧
      (s.writeVideo x).recorder.pts = s.recorder.pts := by
  unfold Muxing.writeVideo Recorder.writeVideo
  split
  · split_ifs <;> exact ⟨rfl, rfl⟩
  · exact ⟨rfl, rfl⟩

theorem Inv.writeVideo (h : s.Inv) (hserves : s.Serves x.width x.height x.format)
    (hpts : s.recorder.pts = some x.frame.pts) : (s.writeVideo x).Inv := by
  obtain ⟨segment, hinner⟩ := Option.ne_none_iff_exists'.mp hserves.1
  obtain ⟨closed, t, htracks, hkey, ⟨filename, hctx2⟩, hlast⟩ := h.current segment hinner
  obtain ⟨filename', hctx2'⟩ := hserves.2
  have hsame : t.width = x.width ∧ t.height = x.height ∧ t.format = x.format := by
    have heq := Option.some.inj (hctx2.symm.trans hctx2')
    simp only [RecorderContext2.mk.injEq] at heq
    exact heq.2
  have hpass : pass s.tracks x = closed ++ [{ t with passed := t.passed ++ [x] }] := by
    simp [pass, htracks]
  have hold : t.Uniform := h.uniform t (htracks ▸ List.mem_append_right _ List.mem_cons_self)
  have hnew : ({ t with passed := t.passed ++ [x] } : Track).Uniform := by
    constructor
    · intro y hy
      rcases List.mem_append.mp hy with hy | hy
      · exact hold.size y hy
      · obtain ⟨hwidth, hheight, hformat⟩ := hsame
        rw [List.mem_singleton.mp hy]
        exact ⟨hwidth.symm, hheight.symm, hformat.symm⟩
    · apply List.pairwise_append.mpr
      refine ⟨hold.ordered, List.pairwise_singleton _ _, fun y hy z hz => ?_⟩
      obtain ⟨pts, hsome, hle⟩ := hlast y hy
      obtain rfl := Option.some.inj (hpts.symm.trans hsome)
      rw [List.mem_singleton.mp hz]
      exact hle
  have hkeyed : (segment.key || x.frame.key) = true ↔
      (∃ y ∈ t.passed, y.frame.key = true) ∨ x.frame.key = true := by
    rw [Bool.or_eq_true, hkey]
  have hsegments := h.segments
  rw [htracks, List.map_append, List.map_singleton] at hsegments
  have huniform : ∀ t ∈ (s.writeVideo x).tracks, t.Uniform := by
    intro t' ht'
    rw [Muxing.writeVideo, if_neg (by simp [hinner]), hpass] at ht'
    rcases List.mem_append.mp ht' with hclosed | hlast
    · exact h.uniform t' (htracks ▸ List.mem_append_left _ hclosed)
    · rw [List.mem_singleton.mp hlast]
      exact hnew
  have hmoved : ∀ y ∈ t.passed ++ [x], y.frame.pts ≤ x.frame.pts := by
    intro y hy
    rcases List.mem_append.mp hy with hy | hy
    · obtain ⟨pts, hsome, hle⟩ := hlast y hy
      obtain rfl := Option.some.inj (hpts.symm.trans hsome)
      exact hle
    · exact Int.le_of_eq (congrArg (fun z => z.frame.pts) (List.mem_singleton.mp hy))
  have hanykey : (∃ y ∈ t.passed ++ [x], y.frame.key = true) ↔
      (∃ y ∈ t.passed, y.frame.key = true) ∨ x.frame.key = true := by
    simp [List.mem_append, or_and_right, exists_or]
  have hcurrent (key : Bool) (hkeys : key = true ↔ ∃ y ∈ t.passed ++ [x], y.frame.key = true) :
      ∃ closed' t', (s.writeVideo x).tracks = closed' ++ [t'] ∧
        (key = true ↔ ∃ y ∈ t'.passed, y.frame.key = true) ∧
        (∃ filename, (s.writeVideo x).recorder.ctx2 =
          some ⟨filename, t'.width, t'.height, t'.format⟩) ∧
        ∀ y ∈ t'.passed, ∃ pts ∈ (s.writeVideo x).recorder.pts, y.frame.pts ≤ pts := by
    obtain ⟨hctx, hptsKept⟩ := s.writeVideo_fields x
    rw [hctx, hptsKept]
    refine ⟨closed, { t with passed := t.passed ++ [x] }, ?_, hkeys, ⟨filename, hctx2⟩,
      fun y hy => ⟨_, hpts, hmoved y hy⟩⟩
    rw [Muxing.writeVideo, if_neg (by simp [hinner]), hpass]
  have htracks' : (s.writeVideo x).tracks = closed ++ [{ t with passed := t.passed ++ [x] }] := by
    rw [Muxing.writeVideo, if_neg (by simp [hinner]), hpass]
  by_cases hwrites : ((segment.key || x.frame.key) && x.frame.added) = true
  · have hrecorder : s.recorder.writeVideo x.frame = { s.recorder with
        inner := some ⟨segment.filename, true, true⟩
        files := s.recorder.files.insert segment.filename
          ((s.recorder.files.get segment.filename).getD [] ++ [x.frame])
        segments := Recorder.append s.recorder.segments x.frame } := by
      simp [Recorder.writeVideo, hinner, hwrites]
    have hboth := Bool.and_eq_true_iff.mp hwrites
    refine ⟨huniform, ?_, fun segment' hsegment' => ?_⟩
    · obtain ⟨front, back, hparts, hfront, hback⟩ := List.map_eq_append_iff.mp hsegments
      obtain ⟨one, rfl, hone⟩ := List.map_eq_singleton_iff.mp hback
      rw [htracks', List.map_append, List.map_singleton, written_concat,
        if_pos ⟨hkeyed.mp hboth.1, hboth.2⟩]
      simp [Muxing.writeVideo, hrecorder, Recorder.append, hparts, hfront, hone]
    · simp only [Muxing.writeVideo, hrecorder] at hsegment'
      obtain rfl := Option.some.inj hsegment'
      exact hcurrent true (by rw [hanykey, ← hkeyed]; simpa using hboth.1)
  · have hrecorder : s.recorder.writeVideo x.frame = { s.recorder with
        inner := some { segment with key := segment.key || x.frame.key } } := by
      simp [Recorder.writeVideo, hinner, hwrites]
    refine ⟨huniform, ?_, fun segment' hsegment' => ?_⟩
    · have hnot : ¬(((∃ y ∈ t.passed, y.frame.key = true) ∨ x.frame.key = true) ∧
          x.frame.added = true) := by
        rw [← hkeyed, ← Bool.and_eq_true_iff]
        exact hwrites
      rw [htracks', List.map_append, List.map_singleton, written_concat, if_neg hnot,
        List.append_nil]
      simp only [Muxing.writeVideo, hrecorder]
      exact hsegments
    · simp only [Muxing.writeVideo, hrecorder] at hsegment'
      obtain rfl := Option.some.inj hsegment'
      exact hcurrent _ (hkeyed.trans hanykey.symm)

theorem Serves.writeVideo {width height : Nat} {format : CodecFormat}
    (h : s.Serves width height format) (x : Taken) :
    (s.writeVideo x).Serves width height format := by
  obtain ⟨segment, hinner⟩ := Option.ne_none_iff_exists'.mp h.1
  refine ⟨?_, ?_⟩
  · unfold Muxing.writeVideo Recorder.writeVideo
    rw [hinner]
    dsimp only
    split_ifs <;> simp
  · rw [(s.writeVideo_fields x).1]
    exact h.2

/-! ## Frames that are passed on -/

/-- The frames of all segments, in order. -/
def reached (s : Muxing) : List Taken := s.tracks.flatMap Track.passed

theorem check_reached (s : Muxing) (width height : Nat) (format : CodecFormat) (now : Nat)
    (opening : Opening) :
    (s.check ctx stamp width height format now opening).1.reached = s.reached := by
  unfold reached Muxing.check begun
  dsimp only
  split_ifs <;> simp

theorem checkPts_reached (s : Muxing) (x : Taken) :
    (s.checkPts ctx stamp x).1.reached = s.reached := by
  unfold Muxing.checkPts
  dsimp only
  split_ifs
  · rfl
  · exact check_reached ctx stamp _ _ _ _ _ _
  · exact check_reached ctx stamp _ _ _ _ _ _
  · rfl

theorem Inv.writeVideo_reached (h : s.Inv) (hinner : s.recorder.inner ≠ none) (x : Taken) :
    (s.writeVideo x).reached = s.reached ++ [x] := by
  obtain ⟨segment, hsome⟩ := Option.ne_none_iff_exists'.mp hinner
  obtain ⟨closed, t, htracks, -⟩ := h.current segment hsome
  simp [reached, Muxing.writeVideo, hsome, pass, htracks]

/-- The frames of a message, as far as they are passed on. -/
theorem Inv.writeFrames {width height : Nat} {format : CodecFormat} {xs : List Taken}
    (h : s.Inv) (hserves : s.Serves width height format)
    (hxs : ∀ x ∈ xs, x.width = width ∧ x.height = height ∧ x.format = format) :
    (s.writeFrames ctx stamp xs).1.Inv ∧
      (s.writeFrames ctx stamp xs).1.reached =
        s.reached ++ xs.take (s.writeFrames ctx stamp xs).2.2 ∧
      ((s.writeFrames ctx stamp xs).2.1 = true →
        (s.writeFrames ctx stamp xs).2.2 = xs.length) ∧
      (s.writeFrames ctx stamp xs).1.answers = s.answers := by
  induction xs generalizing s with
  | nil => exact ⟨h, by simp [Muxing.writeFrames], fun _ => rfl, rfl⟩
  | cons x xs ih =>
    obtain ⟨hwidth, hheight, hformat⟩ := hxs x List.mem_cons_self
    rw [← hwidth, ← hheight, ← hformat] at hserves
    obtain ⟨hchecked, hpassed⟩ := h.checkPts ctx stamp hserves
    have hanswers : (s.checkPts ctx stamp x).1.answers = s.answers := by
      unfold Muxing.checkPts Muxing.check
      dsimp only
      split_ifs <;> rfl
    rw [Muxing.writeFrames]
    dsimp only
    split_ifs with hok
    · obtain ⟨hserved, hpts⟩ := hpassed hok
      have hwritten := hchecked.writeVideo hserved hpts
      have hnext := hserved.writeVideo x
      rw [hwidth, hheight, hformat] at hnext
      obtain ⟨hinv, hreached, hcount, hkept⟩ := ih hwritten hnext
        fun y hy => hxs y (List.mem_cons_of_mem x hy)
      refine ⟨hinv, ?_, fun hdone => ?_, ?_⟩
      · rw [hreached, hchecked.writeVideo_reached hserved.1, checkPts_reached, List.take_succ_cons,
          List.append_assoc, List.singleton_append]
      · rw [hcount hdone, List.length_cons]
      · rw [hkept]
        exact hanswers
    · exact ⟨hchecked, by simp [checkPts_reached], nofun, hanswers⟩

/-- What holds between the messages. -/
structure Answered (s : Muxing) : Prop where
  inv : s.Inv
  reached : s.reached = s.answers.flatMap fun a => a.message.taken.take a.count
  complete : ∀ a ∈ s.answers, a.ok = true → a.count = a.message.frames.length

theorem Inv.answer {message : VideoFrame} {ok : Bool} {count : Nat} (h : s.Inv)
    (hreached : s.reached = (s.answers.flatMap fun a => a.message.taken.take a.count) ++
      message.taken.take count)
    (hcomplete : ∀ a ∈ s.answers, a.ok = true → a.count = a.message.frames.length)
    (hok : ok = true → count = message.frames.length) : (s.answer message ok count).Answered := by
  refine ⟨⟨h.uniform, h.segments, h.current⟩, ?_, fun a ha => ?_⟩
  · rw [Muxing.answer, List.flatMap_append, List.flatMap_singleton]
    exact hreached
  · rcases List.mem_append.mp ha with ha | ha
    · exact hcomplete a ha
    · rw [List.mem_singleton.mp ha]
      exact hok

/-- A message is answered, and what holds goes on to hold. -/
theorem Answered.writeFrame (h : s.Answered) (message : VideoFrame) :
    (s.writeFrame ctx stamp message).Answered ∧
      (s.writeFrame ctx stamp message).answers.map Answer.message =
        s.answers.map Answer.message ++ [message] := by
  obtain ⟨hchecked, hserves⟩ := h.inv.check ctx stamp message.width
    message.height message.format message.now message.opening
  have hreached := check_reached ctx stamp s message.width message.height
    message.format message.now message.opening
  rw [h.reached] at hreached
  unfold Muxing.writeFrame
  dsimp only
  split_ifs with hrefused hok
  · exact ⟨h.inv.answer (by simp [h.reached]) h.complete nofun, List.map_append⟩
  · have hsame : ∀ x ∈ message.taken, x.width = message.width ∧ x.height = message.height ∧
        x.format = message.format := by simp [VideoFrame.taken]
    obtain ⟨hinv, hmore, hcount, hanswers⟩ := hchecked.writeFrames ctx stamp (hserves hok) hsame
    refine ⟨hinv.answer ?_ ?_ ?_, ?_⟩
    · rw [hmore, hreached, hanswers]
      rfl
    · rw [hanswers]
      exact h.complete
    · intro hdone
      rw [hcount hdone, VideoFrame.taken, List.length_map]
    · rw [Muxing.answer, List.map_append, hanswers]
      rfl
  · refine ⟨Inv.answer ⟨hchecked.uniform, hchecked.segments, hchecked.current⟩ ?_ h.complete
      nofun, List.map_append⟩
    rw [List.take_zero, List.append_nil]
    exact hreached

end Muxing

/-- A segment as it should be: it begins with a key frame, its frames have its size and codec and
time stamps that are theirs and do not go back, and what is not in it is in front of a key frame. -/
structure Track.WellFormed (t : Track) : Prop where
  first : ∀ x ∈ t.handed.head?, x.frame.key = true
  size : ∀ x ∈ t.handed, x.width = t.width ∧ x.height = t.height ∧ x.format = t.format
  stamps : ∃ stamps : List Nat, t.handed.map (fun x => timestamp x.frame.pts) = stamps.map some ∧
    stamps.Pairwise (· ≤ ·) ∧
    stamps.map (fun n : Nat => (n : Int)) = t.handed.map fun x => x.frame.pts * 1000000
  rest : ∃ front, t.passed = front ++ t.written ∧ ∀ x ∈ front, x.frame.key = false

theorem Track.Uniform.wellFormed {t : Track} (h : t.Uniform)
    (hpts : ∀ x ∈ t.passed, 0 ≤ x.frame.pts ∧ x.frame.pts ≤ 18446744073709)
    (hadded : ∀ x ∈ t.passed, x.frame.added = true) : t.WellFormed := by
  have hsub : t.handed.Sublist t.passed := List.dropWhile_sublist _
  have hwritten : t.written = t.handed :=
    List.filter_eq_self.mpr fun x hx => hadded x (hsub.subset hx)
  refine ⟨fun x hx => ?_, fun x hx => h.size x (hsub.subset hx),
    ⟨t.handed.map fun x => x.frame.pts.toNat * 1000000, ?_, ?_, ?_⟩,
    ⟨t.passed.takeWhile fun x => !x.frame.key, ?_, fun x hx => ?_⟩⟩
  · have hhead := List.head?_dropWhile_not (fun x : Taken => !x.frame.key) t.passed
    rw [Track.handed] at hx
    rw [hx] at hhead
    simpa using hhead
  · rw [List.map_map, List.map_inj_left]
    intro x hx
    obtain ⟨hnonneg, hle⟩ := hpts x (hsub.subset hx)
    have hcast : asU64 x.frame.pts = x.frame.pts.toNat := by
      unfold asU64
      omega
    rw [timestamp, hcast, if_pos (by omega)]
    rfl
  · rw [List.pairwise_map]
    refine (h.ordered.sublist hsub).imp fun {x y} hle => ?_
    omega
  · rw [List.map_map, List.map_inj_left]
    intro x hx
    obtain ⟨hnonneg, -⟩ := hpts x (hsub.subset hx)
    simp only [Function.comp_apply]
    omega
  · rw [hwritten, Track.handed, List.takeWhile_append_dropWhile]
  · simpa using List.mem_takeWhile_imp hx

namespace Muxing

/-- The recorder, its segments and its answers behind messages. -/
def recorded (ctx : RecorderContext) (stamp : Nat → String)
    (files : Table String (List EncodedVideoFrame)) (messages : List VideoFrame) : Muxing :=
  run (writeFrame ctx stamp) { recorder := .new files } messages

section Runs

variable (ctx : RecorderContext) (stamp : Nat → String)
  (files : Table String (List EncodedVideoFrame)) (messages : List VideoFrame)

theorem recorded_recorder : (recorded ctx stamp files messages).recorder =
    run (Recorder.writeFrame ctx stamp) (.new files) messages := by
  have hrun (s : Muxing) : (run (writeFrame ctx stamp) s messages).recorder =
      run (Recorder.writeFrame ctx stamp) s.recorder messages := by
    induction messages generalizing s with
    | nil => rfl
    | cons message messages ih => rw [run_cons, run_cons, ih, writeFrame_recorder]
  exact hrun _

theorem recorded_answered : (recorded ctx stamp files messages).Answered ∧
    (recorded ctx stamp files messages).answers.map Answer.message = messages := by
  have hrun {s : Muxing} (h : s.Answered) :
      (run (writeFrame ctx stamp) s messages).Answered ∧
        (run (writeFrame ctx stamp) s messages).answers.map Answer.message =
          s.answers.map Answer.message ++ messages := by
    induction messages generalizing s with
    | nil => exact ⟨h, (List.append_nil _).symm⟩
    | cons message messages ih =>
      obtain ⟨hnext, hmessage⟩ := h.writeFrame ctx stamp message
      obtain ⟨hlast, hmessages⟩ := ih hnext
      refine ⟨hlast, ?_⟩
      rw [run_cons, hmessages, hmessage, List.append_assoc, List.singleton_append]
  refine hrun ⟨⟨nofun, rfl, nofun⟩, rfl, nofun⟩

/-- What is passed on is of some message. -/
theorem mem_of_passed {t : Track} {x : Taken} (ht : t ∈ (recorded ctx stamp files messages).tracks)
    (hx : x ∈ t.passed) : ∃ m ∈ messages, x.frame ∈ m.frames := by
  obtain ⟨hanswered, hmessages⟩ := recorded_answered ctx stamp files messages
  have hmem : x ∈ (recorded ctx stamp files messages).reached := List.mem_flatMap.mpr ⟨t, ht, hx⟩
  rw [hanswered.reached] at hmem
  obtain ⟨a, ha, hxa⟩ := List.mem_flatMap.mp hmem
  obtain ⟨frame, hframe, rfl⟩ := List.mem_map.mp (List.mem_of_mem_take hxa)
  exact ⟨a.message, hmessages ▸ List.mem_map_of_mem ha, hframe⟩

/-- Where the muxer takes every frame and every time fits, the segments are well formed, and a
message of which a frame is not in a segment is answered with an error. -/
theorem recorded_wellFormed
    (hpts : ∀ m ∈ messages, ∀ frame ∈ m.frames, 0 ≤ frame.pts ∧ frame.pts ≤ 18446744073709)
    (hadded : ∀ m ∈ messages, ∀ frame ∈ m.frames, frame.added = true) :
    (∀ t ∈ (recorded ctx stamp files messages).tracks, t.WellFormed) ∧
      (run (Recorder.writeFrame ctx stamp) (.new files) messages).segments.map Prod.snd =
        (recorded ctx stamp files messages).tracks.map (fun t => t.handed.map Taken.frame) ∧
      (recorded ctx stamp files messages).answers.map Answer.message = messages ∧
      (recorded ctx stamp files messages).tracks.flatMap Track.passed =
        (recorded ctx stamp files messages).answers.flatMap
          (fun a => a.message.taken.take a.count) ∧
      ∀ a ∈ (recorded ctx stamp files messages).answers,
        a.ok = true → a.count = a.message.frames.length := by
  obtain ⟨hanswered, hmessages⟩ := recorded_answered ctx stamp files messages
  have hgood {t : Track} (ht : t ∈ (recorded ctx stamp files messages).tracks) {x : Taken}
      (hx : x ∈ t.passed) : (0 ≤ x.frame.pts ∧ x.frame.pts ≤ 18446744073709) ∧
        x.frame.added = true := by
    obtain ⟨m, hm, hframe⟩ := mem_of_passed ctx stamp files messages ht hx
    exact ⟨hpts m hm _ hframe, hadded m hm _ hframe⟩
  refine ⟨fun t ht => ?_, ?_, hmessages, hanswered.reached, hanswered.complete⟩
  · exact (hanswered.inv.uniform t ht).wellFormed (fun x hx => (hgood ht hx).1)
      fun x hx => (hgood ht hx).2
  · rw [← recorded_recorder, hanswered.inv.segments, List.map_inj_left]
    intro t ht
    have hsub : t.handed.Sublist t.passed := List.dropWhile_sublist _
    rw [Track.written, List.filter_eq_self.mpr fun x hx => (hgood ht (hsub.subset hx)).2]

end Runs

/-- The screen changes its size, and the peer's clock goes back. -/
def changing : List VideoFrame :=
  [Recorder.keyMessage 640 5 0, Recorder.keyMessage 800 7 1, Recorder.keyMessage 800 3 2]

theorem changing_wellFormed :
    (recorded Recorder.ownScreen Recorder.plainStamp ∅ changing).tracks.length = 3 ∧
      ∀ t ∈ (recorded Recorder.ownScreen Recorder.plainStamp ∅ changing).tracks, t.WellFormed :=
  ⟨by decide +kernel, (recorded_wellFormed Recorder.ownScreen Recorder.plainStamp ∅ changing
    (by decide) (by decide)).1⟩

/-- A key frame from before the epoch of the peer's clock. -/
def negative : VideoFrame where
  frames := [Recorder.keyFrame (-1) 0]
  width := 640
  height := 480
  format := .vp9
  now := 0
  opening := .created

theorem negative_not_wellFormed :
    ¬ ∀ t ∈ (recorded Recorder.ownScreen Recorder.plainStamp ∅ [negative]).tracks,
      t.WellFormed := by
  intro hall
  have hmem : ⟨640, 480, .vp9, negative.taken⟩ ∈
      (recorded Recorder.ownScreen Recorder.plainStamp ∅ [negative]).tracks := by
    decide +kernel
  obtain ⟨stamps, hstamps, -⟩ := (hall _ hmem).stamps
  have hoverflow : timestamp (-1) = none := by decide
  have hnone : [none] = stamps.map some := hoverflow ▸ hstamps
  have hin : none ∈ stamps.map some := hnone ▸ List.mem_singleton_self none
  simp at hin

end Muxing

end Recording

end MDesk
