import Mathlib.Data.List.Basic

/-!
# The recorder of a video thread

A video thread takes the messages of its channel one after another. What it does under a lock of its
own for a message (to untrack a file, to register one, to acknowledge) stands in front of the
messages that are left.
-/

namespace MDesk.RecordingHandover

/-- The messages of `MediaData` that matter to a recording, and what is left to do of one. A file is
registered in two steps: the results of its source are invalidated, and it is tracked. -/
inductive Work where
  | frame
  | recordScreen (start : Bool)
  | finalizeRecording (batch : Nat)
  | untrack (path : String)
  | register (path : String) (invalidated : Bool)
  | acknowledge (batch : Nat)
  deriving DecidableEq, Repr

/-- The file a piece of work is about. -/
def Work.path? : Work → Option String
  | .untrack path => some path
  | .register path _ => some path
  | _ => none

/-- The finalisation a piece of work belongs to. -/
def Work.batch? : Work → Option Nat
  | .finalizeRecording batch => some batch
  | .acknowledge batch => some batch
  | _ => none

/-- The recording fields of `VideoHandler`. A recorder goes by the files it has opened, the last of
which is the current one. -/
structure VideoHandler where
  recorder : Option (List String) := none
  record : Bool := false
  recordActive : Bool := false
  lastRecordingFilename : Option String := none
  deriving DecidableEq, Repr

/-- What the world does while a message is handled: whether a new handler is to record, whether a
recorder can be created, the files that are opened, whether the frame is written, and the files
that a recorder has removed. -/
structure VideoOutcome where
  autoRecord : Bool := false
  created : Bool := false
  opened : List String := []
  written : Bool := false
  removed : List String := []
  deriving DecidableEq, Repr

/-- `is_new_recording_filename`. -/
def isNewRecordingFilename (previous current : Option String) : Bool :=
  current.isSome && current ≠ previous

namespace VideoHandler

/-- The files of the recorder. -/
def files (h : VideoHandler) : List String := h.recorder.getD []

/-- `record_screen`. The recorder that was there is dropped. -/
def recordScreen (_ : VideoHandler) (start created : Bool) : VideoHandler :=
  if start && created then { recorder := some [], record := true } else {}

/-- The recording of `handle_frame`, with the file whose status has changed. -/
def handleFrame (h : VideoHandler) (opened : List String) (written : Bool) :
    VideoHandler × Option String :=
  match h.record, h.recorder with
  | true, some files =>
    if written then
      let filename := (files ++ opened).getLast?
      let changed := isNewRecordingFilename h.lastRecordingFilename filename
      ({ recorder := some (files ++ opened)
         record := true
         recordActive := true
         lastRecordingFilename := if changed then filename else h.lastRecordingFilename },
        if changed || !h.recordActive then filename else none)
    else ({}, none)
  | _, _ => (h, none)

variable {h : VideoHandler} {opened : List String} {written start created : Bool} {path : String}

theorem files_recordScreen : (h.recordScreen start created).files = [] := by
  unfold recordScreen
  split_ifs <;> rfl

theorem mem_files_handleFrame (hmem : path ∈ (h.handleFrame opened written).1.files) :
    path ∈ h.files ++ opened := by
  unfold handleFrame at hmem
  split at hmem
  next files hrecord hrecorder =>
    have hfiles : h.files = files := by rw [VideoHandler.files, hrecorder, Option.getD_some]
    rw [hfiles]
    split_ifs at hmem
    · exact hmem
    · cases hmem
  next => exact List.mem_append_left _ hmem

theorem mem_of_handleFrame (hpath : (h.handleFrame opened written).2 = some path) :
    path ∈ h.files ++ opened := by
  unfold handleFrame at hpath
  split at hpath
  next files hrecord hrecorder =>
    have hfiles : h.files = files := by rw [VideoHandler.files, hrecorder, Option.getD_some]
    rw [hfiles]
    by_cases hwritten : written = true
    · rw [if_pos hwritten] at hpath
      dsimp only at hpath
      split_ifs at hpath
      exact List.mem_of_getLast? hpath
    · rw [if_neg hwritten] at hpath
      cases hpath
  next => cases hpath

end VideoHandler

/-- A thread of `start_video_thread`, with the connection it belongs to. -/
structure VideoThread where
  remote : Option Nat := none
  recordingSourceConnectionId : String := ""
  recordingConnectionTicket : String := ""
  handler : Option VideoHandler := none
  work : List Work := []
  deriving DecidableEq, Repr

/-- The files to untrack: those the recorder says it has removed. -/
def untracks (files removed : List String) : List Work :=
  (removed.filter (· ∈ files)).map .untrack

/-- The file to register, when the status has changed. -/
def registers : Option String → List Work
  | none => []
  | some path => [.register path false]

namespace VideoThread

/-- The files of the recorder of a thread. -/
def files (th : VideoThread) : List String := (th.handler.map VideoHandler.files).getD []

/-- The files a thread may still do something about. -/
def paths (th : VideoThread) : List String := th.files ++ th.work.filterMap Work.path?

/-- The handler for a frame, which the first one makes. -/
def handlerFor (th : VideoThread) (o : VideoOutcome) : VideoHandler :=
  match th.handler with
  | some h => h
  | none => if o.autoRecord then VideoHandler.recordScreen {} true o.created else {}

/-- What a thread makes of a piece of work: its handler, and what is to do before the rest. -/
def process (th : VideoThread) (o : VideoOutcome) : Work → Option VideoHandler × List Work
  | .frame =>
    let h := th.handlerFor o
    let (h', registered) := h.handleFrame o.opened o.written
    (some h', untracks (h.files ++ o.opened) o.removed ++ registers registered)
  | .recordScreen start =>
    match th.handler with
    | none => (none, [])
    | some h =>
      (some (h.recordScreen start o.created), if start then [] else untracks h.files o.removed)
  | .finalizeRecording batch =>
    match th.handler with
    | none => (none, [.acknowledge batch])
    | some h =>
      (some (h.recordScreen false o.created), untracks h.files o.removed ++ [.acknowledge batch])
  | .register path false => (th.handler, [.register path true])
  | .register _ true | .untrack _ | .acknowledge _ => (th.handler, [])

/-- The thread behind its next piece of work. -/
def next (th : VideoThread) (o : VideoOutcome) : VideoThread :=
  match th.work with
  | [] => th
  | x :: rest =>
    { th with handler := (th.process o x).1, work := (th.process o x).2 ++ rest }

/-- A message goes into the channel of a thread. -/
def push (th : VideoThread) (x : Work) : VideoThread := { th with work := th.work ++ [x] }

/-- A thread with nothing to do and no recorder. -/
structure Quiet (th : VideoThread) : Prop where
  work : th.work = []
  files : th.files = []

/-- A thread whose last work is a finalisation. When it is in hand the recorder has been dropped. -/
inductive Pending (th : VideoThread) (batch : Nat) : Prop where
  | queued (w : List Work) (h : th.work = w ++ [.finalizeRecording batch])
      (hw : ∀ x ∈ w, x.batch? ≠ some batch)
  | inHand (w : List Work) (h : th.work = w ++ [.acknowledge batch])
      (hw : ∀ x ∈ w, ∃ path, x = .untrack path) (hfiles : th.files = [])

/-- Only the work in hand may be a file whose source is invalidated already. -/
def Announced (th : VideoThread) : Prop := ∀ x ∈ th.work.tail, ∀ path, x ≠ .register path true

variable {th : VideoThread} {o : VideoOutcome} {x y : Work} {rest : List Work} {path : String}
  {batch : Nat}

theorem mem_files_iff : path ∈ th.files ↔ ∃ h, th.handler = some h ∧ path ∈ h.files := by
  unfold files
  cases th.handler with
  | none => simp
  | some h => simp

theorem mem_paths_iff :
    path ∈ th.paths ↔ path ∈ th.files ∨ ∃ x ∈ th.work, x.path? = some path := by
  rw [paths, List.mem_append, List.mem_filterMap]

theorem mem_files_handlerFor (hmem : path ∈ (th.handlerFor o).files) : path ∈ th.files := by
  unfold handlerFor at hmem
  cases hhandler : th.handler with
  | none =>
    rw [hhandler] at hmem
    dsimp only at hmem
    split_ifs at hmem
    · rw [VideoHandler.files_recordScreen] at hmem
      cases hmem
    · cases hmem
  | some h =>
    rw [hhandler] at hmem
    exact mem_files_iff.mpr ⟨h, hhandler, hmem⟩

theorem mem_untracks {files removed : List String} (hmem : y ∈ untracks files removed) :
    ∃ path, y = .untrack path ∧ path ∈ files := by
  obtain ⟨path, hpath, rfl⟩ := List.mem_map.mp hmem
  exact ⟨path, rfl, of_decide_eq_true (List.mem_filter.mp hpath).2⟩

/-- The recorder behind a piece of work has no other files than before, but for those opened. -/
theorem mem_files_process {h : VideoHandler} (hh : (th.process o x).1 = some h)
    (hmem : path ∈ h.files) : path ∈ th.files ∨ path ∈ o.opened := by
  cases x with
  | frame =>
    cases hh
    rcases List.mem_append.mp (VideoHandler.mem_files_handleFrame hmem) with hold | hnew
    · exact .inl (mem_files_handlerFor hold)
    · exact .inr hnew
  | recordScreen start =>
    unfold process at hh
    cases hhandler : th.handler with
    | none =>
      rw [hhandler] at hh
      cases hh
    | some h' =>
      rw [hhandler] at hh
      cases hh
      rw [VideoHandler.files_recordScreen] at hmem
      cases hmem
  | finalizeRecording batch =>
    unfold process at hh
    cases hhandler : th.handler with
    | none =>
      rw [hhandler] at hh
      cases hh
    | some h' =>
      rw [hhandler] at hh
      cases hh
      rw [VideoHandler.files_recordScreen] at hmem
      cases hmem
  | register path' invalidated =>
    cases invalidated with
    | true => exact .inl (mem_files_iff.mpr ⟨h, hh, hmem⟩)
    | false => exact .inl (mem_files_iff.mpr ⟨h, hh, hmem⟩)
  | untrack path' => exact .inl (mem_files_iff.mpr ⟨h, hh, hmem⟩)
  | acknowledge batch => exact .inl (mem_files_iff.mpr ⟨h, hh, hmem⟩)

/-- What is to do of a piece of work. -/
theorem mem_process (hmem : y ∈ (th.process o x).2) :
    (∃ path, y = .untrack path ∧ (path ∈ th.files ∨ path ∈ o.opened)) ∨
      (∃ path, x = .frame ∧ y = .register path false ∧ (path ∈ th.files ∨ path ∈ o.opened)) ∨
      (∃ batch, x = .finalizeRecording batch ∧ y = .acknowledge batch) ∨
      (∃ path, x = .register path false ∧ y = .register path true) := by
  cases x with
  | frame =>
    have hboth : y ∈ untracks ((th.handlerFor o).files ++ o.opened) o.removed ++
        registers ((th.handlerFor o).handleFrame o.opened o.written).2 := hmem
    rcases List.mem_append.mp hboth with huntrack | hregister
    · obtain ⟨path, rfl, hpath⟩ := mem_untracks huntrack
      exact .inl ⟨path, rfl, (List.mem_append.mp hpath).imp_left mem_files_handlerFor⟩
    · right
      left
      cases hstatus : ((th.handlerFor o).handleFrame o.opened o.written).2 with
      | none =>
        rw [hstatus] at hregister
        cases hregister
      | some path =>
        rw [hstatus] at hregister
        refine ⟨path, rfl, List.mem_singleton.mp hregister, ?_⟩
        exact (List.mem_append.mp (VideoHandler.mem_of_handleFrame hstatus)).imp_left
          mem_files_handlerFor
  | recordScreen start =>
    unfold process at hmem
    cases hhandler : th.handler with
    | none =>
      rw [hhandler] at hmem
      cases hmem
    | some h =>
      rw [hhandler] at hmem
      dsimp only at hmem
      split_ifs at hmem
      · cases hmem
      · obtain ⟨path, rfl, hpath⟩ := mem_untracks hmem
        exact .inl ⟨path, rfl, .inl (mem_files_iff.mpr ⟨h, hhandler, hpath⟩)⟩
  | finalizeRecording batch =>
    unfold process at hmem
    cases hhandler : th.handler with
    | none =>
      rw [hhandler] at hmem
      exact .inr (.inr (.inl ⟨batch, rfl, List.mem_singleton.mp hmem⟩))
    | some h =>
      rw [hhandler] at hmem
      rcases List.mem_append.mp hmem with huntrack | hack
      · obtain ⟨path, rfl, hpath⟩ := mem_untracks huntrack
        exact .inl ⟨path, rfl, .inl (mem_files_iff.mpr ⟨h, hhandler, hpath⟩)⟩
      · exact .inr (.inr (.inl ⟨batch, rfl, List.mem_singleton.mp hack⟩))
  | register path invalidated =>
    cases invalidated with
    | true => cases hmem
    | false => exact .inr (.inr (.inr ⟨path, rfl, List.mem_singleton.mp hmem⟩))
  | untrack path => cases hmem
  | acknowledge batch => cases hmem

theorem next_of_nil (h : th.work = []) : th.next o = th := by rw [next, h]

theorem next_of_cons (h : th.work = x :: rest) :
    th.next o = { th with handler := (th.process o x).1, work := (th.process o x).2 ++ rest } := by
  rw [next, h]

@[simp] theorem next_remote : (th.next o).remote = th.remote := by
  unfold next
  split <;> rfl

@[simp] theorem next_source :
    (th.next o).recordingSourceConnectionId = th.recordingSourceConnectionId := by
  unfold next
  split <;> rfl

/-- A thread is about no other files than before, but for those opened. -/
theorem mem_paths_next (hmem : path ∈ (th.next o).paths) : path ∈ th.paths ∨ path ∈ o.opened := by
  cases hwork : th.work with
  | nil =>
    rw [next_of_nil hwork] at hmem
    exact .inl hmem
  | cons x rest =>
    rw [next_of_cons hwork, mem_paths_iff] at hmem
    rcases hmem with hfile | ⟨y, hy, hpath⟩
    · obtain ⟨h, hh, hfile'⟩ := mem_files_iff.mp hfile
      exact (mem_files_process hh hfile').imp_left fun hold => mem_paths_iff.mpr (.inl hold)
    · rcases List.mem_append.mp hy with hnew | hrest
      · rcases mem_process hnew with ⟨p, rfl, hp⟩ | ⟨p, -, rfl, hp⟩ | ⟨b, -, rfl⟩ | ⟨p, rfl, rfl⟩
        · cases hpath
          exact hp.imp_left fun hold => mem_paths_iff.mpr (.inl hold)
        · cases hpath
          exact hp.imp_left fun hold => mem_paths_iff.mpr (.inl hold)
        · cases hpath
        · refine .inl (mem_paths_iff.mpr (.inr ⟨.register p false, ?_, hpath⟩))
          rw [hwork]
          exact List.mem_cons_self
      · refine .inl (mem_paths_iff.mpr (.inr ⟨y, ?_, hpath⟩))
        rw [hwork]
        exact List.mem_cons_of_mem _ hrest

/-- A thread belongs to no other finalisations than before. -/
theorem batch_next (hmem : y ∈ (th.next o).work) (hbatch : y.batch? = some batch) :
    ∃ x ∈ th.work, x.batch? = some batch := by
  cases hwork : th.work with
  | nil =>
    rw [next_of_nil hwork, hwork] at hmem
    cases hmem
  | cons x rest =>
    rw [next_of_cons hwork] at hmem
    rcases List.mem_append.mp hmem with hnew | hrest
    · rcases mem_process hnew with ⟨p, rfl, -⟩ | ⟨p, -, rfl, -⟩ | ⟨b, rfl, rfl⟩ | ⟨p, rfl, rfl⟩
      · cases hbatch
      · cases hbatch
      · exact ⟨_, List.mem_cons_self, hbatch⟩
      · cases hbatch
    · exact ⟨y, List.mem_cons_of_mem _ hrest, hbatch⟩

theorem Announced.next (h : th.Announced) : (th.next o).Announced := by
  cases hwork : th.work with
  | nil =>
    rw [next_of_nil hwork]
    exact h
  | cons x rest =>
    have hrest : ∀ y ∈ rest, ∀ path, y ≠ .register path true := by
      intro y hy
      exact h y (by rw [hwork]; exact hy)
    rw [next_of_cons hwork]
    intro y hy path heq
    subst heq
    have hprocess : ∀ z ∈ (th.process o x).2.tail, ∀ p, z ≠ .register p true := by
      intro z hz p heq
      subst heq
      rcases mem_process (List.mem_of_mem_tail hz) with
        ⟨p', hp', -⟩ | ⟨p', -, hp', -⟩ | ⟨b, -, hb⟩ | ⟨p', rfl, -⟩
      · cases hp'
      · cases hp'
      · cases hb
      · cases hz
    cases hnew : (th.process o x).2 with
    | nil =>
      rw [hnew] at hy
      exact hrest _ (List.mem_of_mem_tail hy) path rfl
    | cons z zs =>
      rw [hnew] at hy hprocess
      rcases List.mem_append.mp hy with hz | hr
      · exact hprocess _ hz path rfl
      · exact hrest _ hr path rfl

theorem Announced.push (h : th.Announced) (hx : ∀ path, x ≠ .register path true) :
    (th.push x).Announced := by
  intro y hy path
  unfold VideoThread.push at hy
  dsimp only at hy
  cases hwork : th.work with
  | nil =>
    rw [hwork] at hy
    cases hy
  | cons z rest =>
    rw [hwork] at hy
    rcases List.mem_append.mp hy with hr | hlast
    · exact h y (by rw [hwork]; exact hr) path
    · rw [List.mem_singleton.mp hlast]
      exact hx path

/-- A file in hand whose source is invalidated has just been announced. -/
theorem Announced.of_next (h : th.Announced)
    (hnext : (th.next o).work = .register path true :: rest) :
    th.work = .register path false :: rest := by
  cases hwork : th.work with
  | nil =>
    rw [next_of_nil hwork, hwork] at hnext
    cases hnext
  | cons x xs =>
    rw [next_of_cons hwork] at hnext
    cases hnew : (th.process o x).2 with
    | nil =>
      rw [hnew] at hnext
      have hin : Work.register path true ∈ th.work.tail := by
        rw [hwork, List.tail_cons, show xs = _ from hnext]
        exact List.mem_cons_self
      exact absurd rfl (h _ hin path)
    | cons z zs =>
      rw [hnew] at hnext
      obtain ⟨rfl, hrest⟩ := List.cons.inj hnext
      have hz : Work.register path true ∈ (th.process o x).2 := by
        rw [hnew]
        exact List.mem_cons_self
      rcases mem_process hz with ⟨p, hp, -⟩ | ⟨p, -, hp, -⟩ | ⟨b, -, hb⟩ | ⟨p, rfl, hp⟩
      · cases hp
      · cases hp
      · cases hb
      · cases hp
        cases hnew
        rw [← hrest]
        rfl

/-- A finalisation that a thread has yet to acknowledge stays its last work. -/
theorem Pending.next (h : th.Pending batch) (hhead : th.work.head? ≠ some (.acknowledge batch)) :
    (th.next o).Pending batch := by
  cases h with
  | queued w hwork hw =>
    cases w with
    | nil =>
      rw [next_of_cons hwork]
      have hfiles : ∀ h, (th.process o (.finalizeRecording batch)).1 = some h → h.files = [] := by
        intro h hh
        unfold process at hh
        cases hhandler : th.handler with
        | none =>
          rw [hhandler] at hh
          cases hh
        | some h' =>
          rw [hhandler] at hh
          cases hh
          exact VideoHandler.files_recordScreen
      have hnone : ∀ work, VideoThread.files { th with
          handler := (th.process o (.finalizeRecording batch)).1, work } = [] := by
        intro work
        refine List.eq_nil_iff_forall_not_mem.mpr fun p hp => ?_
        obtain ⟨h, hh, hmem⟩ := mem_files_iff.mp hp
        rw [hfiles h hh] at hmem
        cases hmem
      cases hhandler : th.handler with
      | none =>
        refine .inHand [] ?_ (fun x hx => by cases hx) (hnone _)
        simp [process, hhandler]
      | some h' =>
        refine .inHand (untracks h'.files o.removed) ?_ ?_ (hnone _)
        · simp [process, hhandler]
        · intro x hx
          obtain ⟨p, rfl, -⟩ := mem_untracks hx
          exact ⟨p, rfl⟩
    | cons x w =>
      rw [next_of_cons hwork]
      refine .queued ((th.process o x).2 ++ w) (List.append_assoc _ _ _).symm ?_
      intro y hy
      rcases List.mem_append.mp hy with hnew | hold
      · rcases mem_process hnew with ⟨p, rfl, -⟩ | ⟨p, -, rfl, -⟩ | ⟨b, rfl, rfl⟩ | ⟨p, rfl, rfl⟩
        · exact fun heq => by cases heq
        · exact fun heq => by cases heq
        · exact hw (.finalizeRecording b) List.mem_cons_self
        · exact fun heq => by cases heq
      · exact hw y (List.mem_cons_of_mem _ hold)
  | inHand w hwork hw hfiles =>
    cases w with
    | nil =>
      rw [hwork] at hhead
      exact absurd rfl hhead
    | cons x w =>
      obtain ⟨p, rfl⟩ := hw x List.mem_cons_self
      rw [next_of_cons hwork]
      exact .inHand w rfl (fun y hy => hw y (List.mem_cons_of_mem _ hy)) hfiles

/-- A thread that acknowledges its last work is quiet. -/
theorem Pending.quiet (h : th.Pending batch) (hhead : th.work.head? = some (.acknowledge batch)) :
    (th.next o).Quiet := by
  cases h with
  | queued w hwork hw =>
    cases w with
    | nil =>
      rw [hwork] at hhead
      cases hhead
    | cons x w =>
      rw [hwork] at hhead
      have hx : x = .acknowledge batch := Option.some.inj hhead
      subst hx
      exact absurd rfl (hw _ List.mem_cons_self)
  | inHand w hwork hw hfiles =>
    cases w with
    | nil =>
      rw [next_of_cons hwork]
      exact ⟨rfl, hfiles⟩
    | cons x w =>
      rw [hwork] at hhead
      obtain ⟨p, rfl⟩ := hw x List.mem_cons_self
      cases hhead

theorem Quiet.paths (h : th.Quiet) : th.paths = [] := by
  rw [VideoThread.paths, h.files, h.work]
  rfl

/-- A thread that is sent a new finalisation has it as its last work. -/
theorem pending_push (h : ∀ x ∈ th.work, x.batch? ≠ some batch) :
    (th.push (.finalizeRecording batch)).Pending batch := .queued th.work rfl h

theorem mem_paths_push (hx : x.path? = none) : path ∈ (th.push x).paths ↔ path ∈ th.paths := by
  unfold VideoThread.paths VideoThread.push
  simp [hx, files]

end VideoThread

end MDesk.RecordingHandover
