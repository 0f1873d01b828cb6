import Mathlib.Algebra.Group.Nat.Defs
import Mathlib.Algebra.GroupWithZero.Nat
import MDesk.Codec.BytesCodec
import MDesk.Core.Run

/-!
# The files of the connection diagnostics

`RotatingWriter` appends lines to a file and starts a new one when the next line would make it
too long. Two older files are kept. Any access to the disk may fail.
-/

namespace MDesk

open Core

/-- How the accesses to the disk go for one line. A write that fails may have written a front of
its bytes. -/
structure LineIo where
  removes : Bool := true
  renamesBackup : Bool := true
  renamesFile : Bool := true
  opens : Bool := true
  failedWrite : Option Nat := none
  deriving DecidableEq, Repr

/-- The writer with its three files; `opened` tells whether it holds the current one. Noted is
what has been written, each piece with whether it is a whole line. -/
structure RotatingWriter where
  limit : Nat
  current : Option Bytes := some []
  backup1 : Option Bytes := none
  backup2 : Option Bytes := none
  opened : Bool := true
  bytes : Nat := 0
  written : List (Bytes × Bool) := []
  deriving DecidableEq, Repr

/-- A line with its end. -/
def endedLine (line : Bytes) : Bytes := line ++ [0x0a]

namespace RotatingWriter

/-- The current file is closed, and the oldest one removed. -/
def closeFile (w : RotatingWriter) (io : LineIo) : RotatingWriter :=
  { w with opened := false, backup2 := if io.removes then none else w.backup2 }

/-- The older file becomes the oldest one. -/
def moveBackup (w : RotatingWriter) : RotatingWriter :=
  match w.backup1 with
  | none => w
  | some old => { w with backup2 := some old, backup1 := none }

/-- The current file becomes the older one. -/
def moveFile (w : RotatingWriter) : RotatingWriter :=
  { w with backup1 := w.current, current := none, bytes := 0 }

/-- The files move on, up to the first error. -/
def rotate (w : RotatingWriter) (io : LineIo) : Bool × RotatingWriter :=
  let w := w.closeFile io
  if w.backup1.isSome ∧ ¬ io.renamesBackup then (false, w)
  else
    let w := w.moveBackup
    if w.current.isNone ∨ ¬ io.renamesFile then (false, w)
    else (true, w.moveFile)

/-- What a write leaves behind, and whether it is a whole line. -/
def piece (line : Bytes) (io : LineIo) : Bytes × Bool :=
  match io.failedWrite with
  | none => (endedLine line, true)
  | some k => ((endedLine line).take k, false)

/-- The current file is opened if need be, and written to. -/
def append (w : RotatingWriter) (line : Bytes) (io : LineIo) : Bool × RotatingWriter :=
  if ¬ w.opened ∧ ¬ io.opens then (false, w)
  else
    let (written, ok) := piece line io
    (ok, { w with
      opened := true
      current := some (w.current.getD [] ++ written)
      bytes := if ok then w.bytes + line.length + 1 else w.bytes
      written := w.written ++ [(written, ok)] })

/-- `line`. -/
def line (w : RotatingWriter) (line : Bytes) (io : LineIo) : Bool × RotatingWriter :=
  if w.limit < w.bytes + line.length + 1 then
    match w.rotate io with
    | (false, w) => (false, w)
    | (true, w) => w.append line io
  else w.append line io

/-- The writer goes on after an error. -/
def step (w : RotatingWriter) (e : Bytes × LineIo) : RotatingWriter := (w.line e.1 e.2).2

/-! ## What the files hold -/

/-- The bytes of pieces. -/
def bytesOf (pieces : List (Bytes × Bool)) : Bytes := pieces.flatMap Prod.fst

/-- The bytes of whole lines, which the writer counts. -/
def counted (pieces : List (Bytes × Bool)) : Nat :=
  ((pieces.filter Prod.snd).map fun piece => piece.1.length).sum

/-- The whole lines in a file do not exceed its limit, if there are several. -/
def Fits (limit : Nat) (pieces : List (Bytes × Bool)) : Prop :=
  counted pieces ≤ limit ∨ (pieces.filter Prod.snd).length ≤ 1

/-- A file consists of pieces. -/
structure Stores (file : Option Bytes) (pieces : List (Bytes × Bool)) : Prop where
  bytes : file.getD [] = bytesOf pieces
  missing : file = none → pieces = []

/-- The files hold what was written last, one after the other. -/
structure Holds (w : RotatingWriter) (lost older old recent : List (Bytes × Bool)) : Prop where
  written : w.written = lost ++ older ++ old ++ recent
  backup2 : Stores w.backup2 older
  backup1 : Stores w.backup1 old
  current : Stores w.current recent
  fitsOlder : Fits w.limit older
  fitsOld : Fits w.limit old
  fitsRecent : Fits w.limit recent
  counts : w.bytes = counted recent

/-- What the three files hold. -/
def contents (w : RotatingWriter) : Bytes :=
  w.backup2.getD [] ++ w.backup1.getD [] ++ w.current.getD []

/-- What holds as long as no access fails and no line with its end has more than `longest` bytes:
nothing is lost before both older files are there, and these are nearly full. -/
structure Keeps (longest : Nat) (w : RotatingWriter) : Prop where
  here : w.current ≠ none
  counts : w.bytes = (w.current.getD []).length
  first : w.backup1 = none → w.backup2 = none
  all : w.backup2 = none → w.contents = bytesOf w.written
  older : ∀ file ∈ w.backup2, w.limit < file.length + longest
  old : ∀ file ∈ w.backup1, w.limit < file.length + longest

variable {w : RotatingWriter} {lost older old recent : List (Bytes × Bool)} {limit longest : Nat}

theorem stores_none : Stores none [] := ⟨rfl, fun _ => rfl⟩

theorem fits_nil : Fits limit [] := .inl (Nat.zero_le _)

theorem bytesOf_concat (pieces : List (Bytes × Bool)) (piece : Bytes × Bool) :
    bytesOf (pieces ++ [piece]) = bytesOf pieces ++ piece.1 := by
  unfold bytesOf
  rw [List.flatMap_append, List.flatMap_singleton]

theorem counted_concat (pieces : List (Bytes × Bool)) (piece : Bytes × Bool) :
    counted (pieces ++ [piece]) = counted pieces + if piece.2 then piece.1.length else 0 := by
  unfold counted
  rw [List.filter_append, List.map_append, List.sum_append, List.filter_singleton]
  cases piece.2 <;> rfl

theorem length_endedLine (line : Bytes) : (endedLine line).length = line.length + 1 :=
  List.length_append

/-- A piece is written behind the current file. -/
theorem Holds.append (h : w.Holds lost older old recent) (line : Bytes) (io : LineIo)
    (hroom : w.bytes + line.length + 1 ≤ w.limit ∨ recent = []) :
    ∃ recent', (w.append line io).2.Holds lost older old recent' := by
  unfold RotatingWriter.append
  split_ifs
  · exact ⟨recent, h⟩
  · refine ⟨recent ++ [piece line io], ?_, h.backup2, h.backup1, ?_, h.fitsOlder, h.fitsOld, ?_, ?_⟩
    · dsimp only
      rw [h.written]
      simp only [List.append_assoc]
    · refine ⟨?_, fun hnone => by cases hnone⟩
      dsimp only
      rw [bytesOf_concat, h.current.bytes, Option.getD_some]
    · have hrecent := h.fitsRecent
      unfold piece
      cases io.failedWrite with
      | some k =>
        unfold Fits at hrecent ⊢
        rw [counted_concat, List.filter_append]
        simpa using hrecent
      | none =>
        rcases hroom with hroom | rfl
        · refine .inl ?_
          rw [counted_concat, if_pos rfl, ← h.counts, length_endedLine]
          exact hroom
        · exact .inr (Nat.le_refl 1)
    · dsimp only
      rw [counted_concat, ← h.counts]
      unfold piece
      cases io.failedWrite with
      | some k => rfl
      | none =>
        dsimp only
        rw [if_pos rfl, if_pos rfl, length_endedLine]
        omega

theorem Holds.closeFile (h : w.Holds lost older old recent) (io : LineIo) :
    ∃ lost' older', (w.closeFile io).Holds lost' older' old recent := by
  unfold RotatingWriter.closeFile
  split_ifs
  · refine ⟨lost ++ older, [], ?_, stores_none, h.backup1, h.current, fits_nil, h.fitsOld,
      h.fitsRecent, h.counts⟩
    rw [List.append_nil]
    exact h.written
  · exact ⟨lost, older, h.written, h.backup2, h.backup1, h.current, h.fitsOlder, h.fitsOld,
      h.fitsRecent, h.counts⟩

/-- The oldest file is lost, if it is still there. -/
theorem Holds.moveBackup (h : w.Holds lost older old recent) :
    ∃ lost' older', w.moveBackup.Holds lost' older' [] recent := by
  unfold RotatingWriter.moveBackup
  split
  · rename_i hnone
    have hold : old = [] := h.backup1.missing hnone
    subst hold
    exact ⟨lost, older, h⟩
  · rename_i file hsome
    refine ⟨lost ++ older, old, ?_, hsome ▸ h.backup1, stores_none, h.current, h.fitsOld,
      fits_nil, h.fitsRecent, h.counts⟩
    rw [List.append_nil]
    exact h.written

theorem Holds.moveFile (h : w.Holds lost older [] recent) :
    w.moveFile.Holds lost older recent [] := by
  refine ⟨?_, h.backup2, h.current, stores_none, h.fitsOlder, h.fitsRecent, fits_nil, rfl⟩
  have hwritten := h.written
  rw [List.append_nil] at hwritten ⊢
  exact hwritten

theorem Holds.rotate (h : w.Holds lost older old recent) (io : LineIo) :
    ∃ lost' older' old' recent', (w.rotate io).2.Holds lost' older' old' recent' ∧
      ((w.rotate io).1 = true → recent' = []) := by
  obtain ⟨lost, older, hclosed⟩ := h.closeFile io
  obtain ⟨lost', older', hmoved⟩ := hclosed.moveBackup
  unfold RotatingWriter.rotate
  dsimp only
  split_ifs
  · exact ⟨_, _, _, _, hclosed, fun hok => by cases hok⟩
  · exact ⟨_, _, _, _, hmoved, fun hok => by cases hok⟩
  · exact ⟨_, _, _, _, hmoved.moveFile, fun _ => rfl⟩

/-- Whatever fails, the files hold what was written last. -/
theorem Holds.step (h : w.Holds lost older old recent) (e : Bytes × LineIo) :
    ∃ lost' older' old' recent', (w.step e).Holds lost' older' old' recent' := by
  unfold RotatingWriter.step RotatingWriter.line
  split_ifs with hfull
  · obtain ⟨lost', older', old', recent', hrotated, hempty⟩ := h.rotate e.2
    split
    · rename_i hres
      rw [hres] at hrotated
      exact ⟨_, _, _, _, hrotated⟩
    · rename_i hres
      rw [hres] at hrotated hempty
      obtain ⟨recent'', happended⟩ := hrotated.append e.1 e.2 (.inr (hempty rfl))
      exact ⟨_, _, _, _, happended⟩
  · obtain ⟨recent', happended⟩ := h.append e.1 e.2 (.inl (Nat.not_lt.mp hfull))
    exact ⟨_, _, _, _, happended⟩

theorem limit_append (w : RotatingWriter) (line : Bytes) (io : LineIo) :
    (w.append line io).2.limit = w.limit := by
  unfold append
  split_ifs <;> rfl

theorem limit_step (w : RotatingWriter) (e : Bytes × LineIo) : (w.step e).limit = w.limit := by
  have hmoved : ∀ w : RotatingWriter, w.moveBackup.limit = w.limit := by
    intro w
    unfold moveBackup
    split <;> rfl
  have hrotate : (w.rotate e.2).2.limit = w.limit := by
    unfold rotate
    dsimp only
    split_ifs
    · rfl
    · exact hmoved _
    · exact hmoved _
  unfold step line
  split_ifs
  · split
    · rename_i hres
      rw [hres] at hrotate
      exact hrotate
    · rename_i hres
      rw [hres] at hrotate
      exact (limit_append _ _ _).trans hrotate
  · exact limit_append _ _ _

/-! ## Without failures -/

theorem append_smooth (w : RotatingWriter) (line : Bytes) :
    (w.append line {}).2 = { w with
      opened := true
      current := some (w.current.getD [] ++ endedLine line)
      bytes := w.bytes + line.length + 1
      written := w.written ++ [(endedLine line, true)] } := by
  unfold append
  rw [if_neg (by simp)]
  rfl

theorem rotate_smooth (h : w.current ≠ none) :
    w.rotate {} = (true, (w.closeFile {}).moveBackup.moveFile) := by
  have hcurrent : (w.closeFile {}).moveBackup.current = w.current := by
    unfold moveBackup
    split <;> rfl
  unfold rotate
  dsimp only
  rw [if_neg (by simp), hcurrent, if_neg (by simpa using h)]

theorem step_smooth (h : w.current ≠ none) (line : Bytes) :
    w.step (line, {}) = (if w.limit < w.bytes + line.length + 1 then
      ((w.closeFile {}).moveBackup.moveFile.append line {}).2 else (w.append line {}).2) := by
  unfold step RotatingWriter.line
  dsimp only
  split_ifs
  · rw [rotate_smooth h]
  · rfl

theorem written_step (h : w.current ≠ none) (line : Bytes) :
    (w.step (line, {})).written = w.written ++ [(endedLine line, true)] := by
  have hmoved : (w.closeFile {}).moveBackup.written = w.written := by
    unfold moveBackup
    split <;> rfl
  rw [step_smooth h]
  split_ifs
  · rw [append_smooth]
    exact congrArg (· ++ _) hmoved
  · rw [append_smooth]

/-- A line that fits follows the others. -/
theorem Keeps.append (h : w.Keeps longest) (line : Bytes) : (w.append line {}).2.Keeps longest := by
  rw [append_smooth]
  refine ⟨Option.some_ne_none _, ?_, h.first, fun hnone => ?_, h.older, h.old⟩
  · dsimp only
    rw [Option.getD_some, List.length_append, length_endedLine, h.counts]
    rfl
  · have hall := h.all hnone
    unfold contents at hall ⊢
    dsimp only
    rw [bytesOf_concat, ← hall, Option.getD_some]
    simp only [List.append_assoc]

/-- A line that does not fit begins a new file, behind one that is nearly full. -/
theorem Keeps.rotate (h : w.Keeps longest) {line : Bytes} (hlong : line.length < longest)
    (hfull : w.limit < w.bytes + line.length + 1) :
    ((w.closeFile {}).moveBackup.moveFile.append line {}).2.Keeps longest := by
  have hnext : ∀ file ∈ w.current, w.limit < file.length + longest := by
    intro file hfile
    have hcounts := h.counts
    rw [Option.mem_def.mp hfile, Option.getD_some] at hcounts
    omega
  rw [append_smooth]
  unfold moveFile moveBackup
  split
  · rename_i hnone
    replace hnone : w.backup1 = none := hnone
    have hall := h.all (h.first hnone)
    refine ⟨Option.some_ne_none _, ?_, fun hcurrent => absurd hcurrent h.here, fun _ => ?_, ?_,
      hnext⟩
    · dsimp only
      rw [Option.getD_none, List.nil_append, Option.getD_some, length_endedLine, Nat.zero_add]
    · unfold contents at hall ⊢
      rw [hnone, h.first hnone] at hall
      dsimp only [closeFile]
      rw [bytesOf_concat, ← hall]
      rfl
    · intro file hfile
      cases hfile
  · rename_i old hsome
    refine ⟨Option.some_ne_none _, ?_, fun hcurrent => absurd hcurrent h.here,
      fun hcurrent => absurd hcurrent (Option.some_ne_none _), ?_, hnext⟩
    · dsimp only
      rw [Option.getD_none, List.nil_append, Option.getD_some, length_endedLine, Nat.zero_add]
    · intro file hfile
      exact h.old file (hsome.trans hfile)

theorem Keeps.step (h : w.Keeps longest) {line : Bytes} (hlong : line.length < longest) :
    (w.step (line, {})).Keeps longest := by
  rw [step_smooth h.here]
  split_ifs with hfull
  · exact h.rotate hlong hfull
  · exact h.append line

/-- Two full files are kept before anything is lost. -/
theorem Keeps.contents (h : w.Keeps longest) : w.contents = bytesOf w.written ∨
    2 * w.limit < w.contents.length + 2 * longest := by
  rcases hbackup2 : w.backup2 with - | older
  · exact .inl (h.all hbackup2)
  · rcases hbackup1 : w.backup1 with - | old
    · rw [h.first hbackup1] at hbackup2
      cases hbackup2
    · refine .inr ?_
      have holder := h.older older hbackup2
      have hold := h.old old hbackup1
      unfold RotatingWriter.contents
      rw [hbackup2, hbackup1, List.length_append, List.length_append, Option.getD_some,
        Option.getD_some]
      omega

/-- A run without failures. -/
theorem smooth_run (limit : Nat) {es : List (Bytes × LineIo)}
    (h : ∀ e ∈ es, e.2 = {} ∧ e.1.length < longest) :
    (run step { limit } es).written = es.map (fun e => (endedLine e.1, true)) ∧
      (run step { limit } es).Keeps longest := by
  induction es using List.reverseRecOn with
  | nil => exact ⟨rfl, Option.some_ne_none _, rfl, fun _ => rfl, fun _ => rfl, by
      rintro _ ⟨⟩, by rintro _ ⟨⟩⟩
  | append_singleton es e ih =>
    obtain ⟨hwritten, hkeeps⟩ := ih fun e he => h e (List.mem_append_left _ he)
    obtain ⟨line, io⟩ := e
    obtain ⟨rfl, hlong⟩ := h (line, io) (List.mem_append_right _ List.mem_cons_self)
    rw [run_append, run_cons, run_nil]
    refine ⟨?_, hkeeps.step hlong⟩
    rw [written_step hkeeps.here, hwritten, List.map_append]
    rfl

theorem limit_run (limit : Nat) (es : List (Bytes × LineIo)) :
    (run step { limit } es).limit = limit := by
  have hall : Allowed step (fun _ _ => True) ({ limit } : RotatingWriter) es :=
    allowed_of_forall (fun _ _ => trivial) _ es
  exact run_keeps (Q := fun w => w.limit = limit) (fun w e h _ => (w.limit_step e).trans h) rfl hall

/-- The files of a run hold its last pieces. -/
theorem holds_run (limit : Nat) (es : List (Bytes × LineIo)) :
    ∃ lost older old recent, (run step { limit } es).Holds lost older old recent := by
  have hall : Allowed step (fun _ _ => True) ({ limit } : RotatingWriter) es :=
    allowed_of_forall (fun _ _ => trivial) _ es
  refine run_keeps (Q := fun w => ∃ lost older old recent, w.Holds lost older old recent)
    (fun w e ⟨_, _, _, _, h⟩ _ => h.step e) ?_ hall
  exact ⟨[], [], [], [], rfl, stores_none, stores_none, ⟨rfl, fun _ => rfl⟩, fits_nil, fits_nil,
    fits_nil, rfl⟩

/-- What a run without failures has written, and when all of it is kept. -/
theorem kept_run (limit : Nat) {es : List (Bytes × LineIo)}
    (h : ∀ e ∈ es, e.2 = {} ∧ e.1.length < longest) :
    (run step { limit } es).written = es.map (fun e => (endedLine e.1, true)) ∧
      ((run step { limit } es).contents = bytesOf (run step { limit } es).written ∨
        2 * limit < (run step { limit } es).contents.length + 2 * longest) := by
  obtain ⟨hwritten, hkeeps⟩ := smooth_run limit h
  refine ⟨hwritten, ?_⟩
  have hcontents := hkeeps.contents
  rw [limit_run] at hcontents
  exact hcontents

/-- What the files of a run hold. -/
structure Rotates (limit longest : Nat) (es : List (Bytes × LineIo)) (w : RotatingWriter) :
    Prop where
  fixed : w.limit = limit
  holds : ∃ lost older old recent, w.Holds lost older old recent
  smooth : (∀ e ∈ es, e.2 = {} ∧ e.1.length < longest) →
    w.written = es.map (fun e => (endedLine e.1, true)) ∧
    (w.contents = bytesOf w.written ∨ 2 * limit < w.contents.length + 2 * longest)

/-- The test of the rotation, by its last lines. -/
example : (run step { limit := 8 } (List.replicate 5 (List.replicate 5 0x61, {}))).contents =
    bytesOf (List.replicate 3 (endedLine (List.replicate 5 0x61), true)) := by decide

end RotatingWriter

end MDesk
