import MDesk.Clipboard.FuseTree
import MDesk.Core.Run
import Mathlib.Data.List.Pairwise

/-!
# The log of removed files

A recursive removal is one removal for each file and each directory, from the bottom up. So that
the log does not list them all, a directory takes the place of its direct children while they are
pending, and what is still pending is logged when a second has gone by without a removal.
-/

namespace MDesk.RemoveLog

open MDesk.Core
open MDesk.Clipboard.FuseTree (parent unixPaths)

/-! ## Paths -/

/-- Drives are the same in both cases of their letter. -/
def foldDrive : PathComponent → PathComponent
  | .drive letter => .drive letter.toUpper
  | c => c

section Paths

variable (C : PathConvention) {a b c : String}

/-- What two paths have in common if they are equal. -/
def identity (path : String) : List PathComponent := (C.components path).map foldDrive

def directChild (parentPath child : String) : Bool :=
  parent (identity C child) = some (identity C parentPath)

variable {C}

theorem length_of_parent {p q : List PathComponent} (h : parent p = some q) :
    p.length = q.length + 1 := by
  unfold parent at h
  split at h
  case h_4 => cases h
  all_goals
    rename_i hlast
    obtain rfl := Option.some.inj h
    have hne : p ≠ [] := by
      rintro rfl
      cases hlast
    have hpos := List.length_pos_iff.mpr hne
    rw [List.length_dropLast]
    omega

theorem directChild_iff :
    directChild C a b = true ↔ parent (identity C b) = some (identity C a) := decide_eq_true_iff

theorem directChild_length (h : directChild C a b = true) :
    (identity C b).length = (identity C a).length + 1 := length_of_parent (directChild_iff.mp h)

/-- A path is not a child of its child. -/
theorem directChild_asymm (h : directChild C a b = true) : directChild C b a = false := by
  rw [← Bool.not_eq_true]
  intro h'
  have hlen := directChild_length h
  have hlen' := directChild_length h'
  omega

theorem directChild_irrefl (a : String) : directChild C a a = false := by
  rw [← Bool.not_eq_true]
  intro h
  have hlen := directChild_length h
  omega

end Paths

/-! ## The log -/

structure FileRemoveFile where
  id : Int
  path : String
  fileNum : Int
  deriving DecidableEq, Repr

structure FileRemoveDir where
  id : Int
  path : String
  recursive : Bool
  deriving DecidableEq, Repr

structure FileActionLog where
  id : Int
  connId : Int
  path : String
  dir : Bool
  deriving DecidableEq, Repr

/-- An instant is a number of nanoseconds. -/
structure FileRemoveLogControl where
  connId : Int
  instant : Nat := 0
  removedFiles : List FileRemoveFile := []
  removedDirs : List FileRemoveDir := []
  deriving DecidableEq, Repr

def FileRemoveFile.log (f : FileRemoveFile) (connId : Int) : FileActionLog where
  id := f.id
  connId := connId
  path := f.path
  dir := false

def FileRemoveDir.log (d : FileRemoveDir) (connId : Int) : FileActionLog where
  id := d.id
  connId := connId
  path := d.path
  dir := true

namespace FileRemoveLogControl

variable (C : PathConvention)

def onRemoveFile (s : FileRemoveLogControl) (now : Nat) (f : FileRemoveFile) :
    FileRemoveLogControl × FileActionLog :=
  ({ s with instant := now, removedFiles := s.removedFiles ++ [f] }, f.log s.connId)

def onRemoveDir (s : FileRemoveLogControl) (now : Nat) (d : FileRemoveDir) :
    FileRemoveLogControl × FileActionLog :=
  let files := s.removedFiles.filter fun f => !directChild C f.path d.path
  let dirs := s.removedDirs.filter fun x => !directChild C d.path x.path
  ({ s with
      instant := now
      removedFiles := files
      removedDirs :=
        if !dirs.any fun x => directChild C x.path d.path then dirs ++ [d] else dirs },
    d.log s.connId)

/-- What is pending, as it would be logged. -/
def pending (s : FileRemoveLogControl) : List FileActionLog :=
  s.removedFiles.map (·.log s.connId) ++ s.removedDirs.map (·.log s.connId)

def onTimer (s : FileRemoveLogControl) (now : Nat) : FileRemoveLogControl × List FileActionLog :=
  if (now - s.instant) / 1000000000 < 1 then (s, [])
  else ({ s with removedFiles := [], removedDirs := [] }, s.pending)

end FileRemoveLogControl

/-- The calls of a connection. -/
inductive Event where
  | removeFile (now : Nat) (f : FileRemoveFile)
  | removeDir (now : Nat) (d : FileRemoveDir)
  | timer (now : Nat)
  deriving DecidableEq, Repr

def step (C : PathConvention) (s : FileRemoveLogControl) : Event → FileRemoveLogControl
  | .removeFile now f => (s.onRemoveFile now f).1
  | .removeDir now d => (s.onRemoveDir C now d).1
  | .timer now => (s.onTimer now).1

/-! ## What the log should do -/

/-- The removal of a directory: its direct children are no longer pending, everything else still
is, and so is the directory, unless its own parent is. -/
structure TakesChildren (C : PathConvention) (s : FileRemoveLogControl) (d : FileRemoveDir)
    (s' : FileRemoveLogControl) : Prop where
  files : s'.removedFiles = s.removedFiles.filter fun f => !directChild C d.path f.path
  dirs : s'.removedDirs = (s.removedDirs.filter fun x => !directChild C d.path x.path) ++
    if s.removedDirs.any fun x => directChild C x.path d.path then [] else [d]

/-- One line of the log is about the same removal as another, or about the directory of the
other. -/
def Covers (C : PathConvention) (a b : FileActionLog) : Prop :=
  (a.dir = b.dir ∧ identity C a.path = identity C b.path) ∨
    (a.dir = true ∧ directChild C a.path b.path = true)

/-- A log in which everything is logged at most once, and no direct child of a directory is
logged beside it. -/
def Coalesced (C : PathConvention) (log : List FileActionLog) : Prop :=
  log.Pairwise fun a b => ¬Covers C a b ∧ ¬Covers C b a

/-- What an event should do. The log of a timer is looked at in every state that is reached,
whether a timer comes or not. -/
def Coalesces (C : PathConvention) (s : FileRemoveLogControl) (e : Event) : Prop :=
  (∀ now d, e = .removeDir now d → TakesChildren C s d (step C s e)) ∧
    ∀ now, Coalesced C ((step C s e).onTimer now).2

/-- The removals that the log is right for. A file is not pending yet, nor is its directory; a
directory is not pending yet, and neither its direct children nor its parent are pending as
files. -/
def Separate (C : PathConvention) (s : FileRemoveLogControl) : Event → Prop
  | .removeFile _ f =>
    (∀ x ∈ s.removedFiles, identity C x.path ≠ identity C f.path) ∧
      ∀ x ∈ s.removedDirs, directChild C x.path f.path = false
  | .removeDir _ d =>
    (∀ f ∈ s.removedFiles, directChild C d.path f.path = false ∧
        directChild C f.path d.path = false) ∧
      ∀ x ∈ s.removedDirs, identity C x.path ≠ identity C d.path
  | .timer _ => True

/-! ## When it does -/

section Coalesced

variable {C : PathConvention} {s : FileRemoveLogControl} {f : FileRemoveFile} {d : FileRemoveDir}
  {now : Nat} {a b : FileActionLog} {log log' : List FileActionLog} {e : Event}

open FileRemoveLogControl

theorem coalesced_perm (h : log.Perm log') : Coalesced C log ↔ Coalesced C log' :=
  h.pairwise_iff fun hab => hab.symm

theorem coalesced_concat :
    Coalesced C (log ++ [a]) ↔
      Coalesced C log ∧ ∀ b ∈ log, ¬Covers C b a ∧ ¬Covers C a b := by
  simp [Coalesced, List.pairwise_append]

theorem Coalesced.not_covers (h : Coalesced C log) (ha : a ∈ log) (hb : b ∈ log) (hne : a ≠ b) :
    ¬Covers C a b := by
  have hsymm : Std.Symm fun a b => ¬Covers C a b ∧ ¬Covers C b a := ⟨fun _ _ hab => hab.symm⟩
  exact (h.forall ha hb hne).1

/-- The timer logs what is pending, if it comes late enough. -/
theorem coalesced_timer : (∀ now, Coalesced C (s.onTimer now).2) ↔ Coalesced C s.pending := by
  constructor
  · intro h
    have hlate := h (s.instant + 1000000000)
    rwa [onTimer, if_neg (by simp)] at hlate
  · intro h now
    unfold onTimer
    split
    · exact List.Pairwise.nil
    · exact h

@[simp] theorem covers_file {f' : FileRemoveFile} {connId : Int} :
    Covers C (f.log connId) (f'.log connId) ↔ identity C f.path = identity C f'.path := by
  simp [Covers, FileRemoveFile.log]

@[simp] theorem not_covers_file_dir {connId : Int} : ¬Covers C (f.log connId) (d.log connId) := by
  simp [Covers, FileRemoveFile.log, FileRemoveDir.log]

@[simp] theorem covers_dir_file {connId : Int} :
    Covers C (d.log connId) (f.log connId) ↔ directChild C d.path f.path = true := by
  simp [Covers, FileRemoveFile.log, FileRemoveDir.log]

@[simp] theorem covers_dir {d' : FileRemoveDir} {connId : Int} :
    Covers C (d.log connId) (d'.log connId) ↔
      identity C d.path = identity C d'.path ∨ directChild C d.path d'.path = true := by
  simp [Covers, FileRemoveDir.log]

/-- The removal of a file leaves the log coalesced if neither the file nor its directory is
pending. -/
theorem coalesced_onRemoveFile (h : Coalesced C s.pending) :
    Coalesced C (s.onRemoveFile now f).1.pending ↔ Separate C s (.removeFile now f) := by
  have hperm : (s.onRemoveFile now f).1.pending.Perm (s.pending ++ [f.log s.connId]) := by
    simp only [pending, onRemoveFile, List.map_append, List.append_assoc]
    exact List.perm_append_comm.append_left _
  rw [coalesced_perm hperm, coalesced_concat, and_iff_right h]
  simp only [pending, List.forall_mem_append, List.forall_mem_map, covers_file,
    covers_dir_file, not_covers_file_dir, not_false_eq_true, and_true, Separate,
    Bool.not_eq_true]
  refine and_congr_left fun _ => forall₂_congr fun x _ => ?_
  exact ⟨fun hx => hx.1, fun hx => ⟨hx, Ne.symm hx⟩⟩

/-- Among the pending directories it makes no difference that the children of the new one are
dropped first. -/
theorem any_parent_filter (dirs : List FileRemoveDir) :
    ((dirs.filter fun x => !directChild C d.path x.path).any fun x =>
      directChild C x.path d.path) = dirs.any fun x => directChild C x.path d.path := by
  rw [List.any_filter]
  congr 1
  ext x
  cases hx : directChild C x.path d.path with
  | true => simp [directChild_asymm hx]
  | false => simp

/-- The directories are treated as they should; the files are if none of them is a direct child
of the directory or has its children. -/
theorem takesChildren_onRemoveDir : TakesChildren C s d (s.onRemoveDir C now d).1 ↔
    ∀ f ∈ s.removedFiles, directChild C d.path f.path = false ∧
      directChild C f.path d.path = false := by
  constructor
  · rintro ⟨hfiles, -⟩ f hf
    have hiff : f ∈ (s.onRemoveDir C now d).1.removedFiles ↔
        directChild C d.path f.path = false := by
      rw [hfiles, List.mem_filter, Bool.not_eq_true', and_iff_right hf]
    rw [onRemoveDir, List.mem_filter, Bool.not_eq_true', and_iff_right hf] at hiff
    cases hchild : directChild C d.path f.path with
    | false => exact ⟨rfl, hiff.mpr hchild⟩
    | true =>
      rw [hchild, directChild_asymm hchild] at hiff
      simp at hiff
  · intro h
    constructor
    · rw [onRemoveDir, List.filter_congr]
      intro f hf
      rw [(h f hf).1, (h f hf).2]
    · simp only [onRemoveDir, any_parent_filter]
      cases s.removedDirs.any fun x => directChild C x.path d.path <;> simp

theorem directChild_congr {x y z : String} (h : identity C x = identity C y) :
    directChild C z x = directChild C z y := by
  unfold directChild
  rw [h]

/-- Where the files are treated as they should, the log stays coalesced if the directory is not
pending yet. -/
theorem coalesced_onRemoveDir (h : Coalesced C s.pending)
    (hfiles : ∀ f ∈ s.removedFiles, directChild C d.path f.path = false ∧
      directChild C f.path d.path = false) :
    Coalesced C (s.onRemoveDir C now d).1.pending ↔
      ∀ x ∈ s.removedDirs, identity C x.path ≠ identity C d.path := by
  have htakes : TakesChildren C s d (s.onRemoveDir C now d).1 :=
    takesChildren_onRemoveDir.mpr hfiles
  let rest := s.removedFiles.map (·.log s.connId) ++
    (s.removedDirs.filter fun x => !directChild C d.path x.path).map (·.log s.connId)
  have hkeep : (s.removedFiles.filter fun f => !directChild C d.path f.path) = s.removedFiles := by
    rw [List.filter_eq_self]
    intro f hf
    simp [(hfiles f hf).1]
  have hpending : (s.onRemoveDir C now d).1.pending = rest ++
      if s.removedDirs.any fun x => directChild C x.path d.path then [] else [d.log s.connId] := by
    rw [pending, htakes.files, htakes.dirs, hkeep, List.map_append, ← List.append_assoc]
    congr 1
    split <;> rfl
  have hrest : Coalesced C rest :=
    h.sublist ((List.filter_sublist.map _).append_left _)
  rw [hpending]
  cases hparent : s.removedDirs.any fun x => directChild C x.path d.path with
  | true =>
    -- beside its parent the directory cannot be pending
    obtain ⟨y, hy, hyd⟩ := List.any_eq_true.mp hparent
    simp only [if_true, List.append_nil, iff_true_left hrest]
    intro x hx heq
    have hyx : directChild C y.path x.path = true := by rwa [directChild_congr heq]
    refine h.not_covers (a := y.log s.connId) (b := x.log s.connId) ?_ ?_ ?_ ?_
    · exact List.mem_append_right _ (List.mem_map_of_mem hy)
    · exact List.mem_append_right _ (List.mem_map_of_mem hx)
    · intro hlog
      have hpath : y.path = x.path := congrArg FileActionLog.path hlog
      rw [hpath, directChild_irrefl] at hyx
      cases hyx
    · exact covers_dir.mpr (.inr hyx)
  | false =>
    simp only [Bool.false_eq_true, if_false]
    rw [coalesced_concat, and_iff_right hrest]
    simp only [rest, List.forall_mem_append, List.forall_mem_map, covers_dir, covers_dir_file,
      not_covers_file_dir, List.mem_filter]
    have hno : ∀ x ∈ s.removedDirs, directChild C x.path d.path = false := by
      simpa using hparent
    constructor
    · rintro ⟨-, hdirs⟩ x hx heq
      refine (hdirs x ⟨hx, ?_⟩).1 (.inl heq)
      rw [directChild_congr heq, directChild_irrefl]
      rfl
    · intro hne
      refine ⟨fun f hf => ⟨not_false, by simp [(hfiles f hf).1]⟩, ?_⟩
      rintro x ⟨hx, hchild⟩
      have hchild' : directChild C d.path x.path = false := by simpa using hchild
      simp [hne x hx, Ne.symm (hne x hx), hno x hx, hchild']

/-- An event does what it should exactly where the log is right for it. -/
theorem coalesces_iff (h : Coalesced C s.pending) : Coalesces C s e ↔ Separate C s e := by
  unfold Coalesces
  rw [coalesced_timer]
  cases e with
  | removeFile now f =>
    have hseparate : Coalesced C (step C s (.removeFile now f)).pending ↔
        Separate C s (.removeFile now f) := coalesced_onRemoveFile h
    rw [← hseparate]
    exact and_iff_right (fun _ _ heq => by cases heq)
  | removeDir now d =>
    have htakes : (∀ now' d', Event.removeDir now d = .removeDir now' d' →
        TakesChildren C s d' (step C s (.removeDir now d))) ↔
        TakesChildren C s d (s.onRemoveDir C now d).1 := by
      constructor
      · intro hall
        exact hall now d rfl
      · rintro hd _ _ ⟨⟩
        exact hd
    rw [htakes, takesChildren_onRemoveDir]
    exact and_congr_right fun hfiles => coalesced_onRemoveDir h hfiles
  | timer now =>
    refine iff_of_true ⟨?_, ?_⟩ trivial
    · intro _ _ heq
      cases heq
    · unfold step onTimer
      dsimp only
      split
      · exact h
      · exact List.Pairwise.nil

end Coalesced

/-- In a run of removals and timers each directory takes the place of its direct children, and
the log is coalesced whenever a timer comes, if and only if each removal is separate from what is
pending. -/
theorem coalesces_run (C : PathConvention) (connId : Int) (es : List Event) :
    Allowed (step C) (Coalesces C) { connId } es ↔ Allowed (step C) (Separate C) { connId } es := by
  have hnew : Coalesced C ({ connId } : FileRemoveLogControl).pending := List.Pairwise.nil
  refine allowed_congr_of_keeps (Q := fun s => Coalesced C s.pending) ?_ ?_ hnew
  · intro s e _ he
    exact coalesced_timer.mp he.2
  · intro s e h
    exact coalesces_iff h

/-- A file stays pending when its directory is removed, and both are logged. -/
theorem removed_file_stays : ¬Allowed (step unixPaths) (Coalesces unixPaths) { connId := 1 }
    [.removeFile 0 ⟨7, "/tmp/d/a", 0⟩, .removeDir 0 ⟨7, "/tmp/d", true⟩] := by
  rintro ⟨-, ⟨hdir, -⟩, -⟩
  have hfiles := (hdir 0 _ rfl).files
  revert hfiles
  decide

end MDesk.RemoveLog
