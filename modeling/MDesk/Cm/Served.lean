import MDesk.Cm.HandleFs
import MDesk.Transfer.Destination

/-!
# Which job a message is about

A message of the connection reaches the first write job with its id. What it can do to the
list of jobs, to the work of each job and what it is answered with are stated once here.
-/

namespace MDesk

open MDesk.Core

namespace TransferJob

variable {P : Platform} {job : TransferJob} {fs : Fs}

/-- A finalised job keeps its id. -/
theorem finalizeWrite_id : (job.finalizeWrite P fs).job.id = job.id := by
  unfold finalizeWrite
  split_ifs <;> rfl

theorem openForBlock_id {block : FileTransferBlock} :
    (job.openForBlock P fs block).job.id = job.id := by
  have hentry : ∀ (job' : TransferJob) (fs' : Fs) (base : PathBuf) (n : Int), job'.id = job.id →
      (job'.openEntry P fs' base n).job.id = job.id := by
    intro job' fs' base n hid
    unfold openEntry createStaging
    dsimp only
    split
    · split <;> exact hid
    · split
      · exact hid
      · split
        · exact hid
        · split
          · exact hid
          · split <;> exact hid
  unfold openForBlock
  split
  · split_ifs
    · exact Outcome.andThen_keeps (Q := fun job' _ => job'.id = job.id) finalizeWrite_id
        fun job' fs' hid => hentry job' fs' _ _ hid
    · rfl
  · split <;> rfl

theorem admitBlock_id {block : FileTransferBlock} {data : Bytes} :
    (job.admitBlock fs block data).job.id = job.id := by
  have hadd : ∀ (job' : TransferJob) (n len : Nat), job'.id = job.id →
      (job'.addDirectBytes fs n len).job.id = job.id := by
    intro job' n len hid
    unfold addDirectBytes
    split_ifs <;> exact hid
  have hcount : ∀ (job' : TransferJob) (n len : Nat), job'.id = job.id →
      (job'.countDirectBlock fs n len).job.id = job.id := by
    intro job' n len hid
    unfold countDirectBlock
    split_ifs
    · exact hid
    · exact hid
    · exact hadd _ n len hid
    · exact hid
    · exact hadd job' n len hid
  unfold admitBlock
  split_ifs
  · rfl
  · unfold advanceDirectFile
    split_ifs
    · rfl
    · rfl
    · exact hcount _ _ _ rfl
    · exact hcount _ _ _ rfl
  · rfl

theorem appendBlock_id {block : FileTransferBlock} {data : Bytes} :
    (job.appendBlock fs block data).job.id = job.id := by
  unfold appendBlock
  split <;> rfl

/-- A job keeps its id when it takes a block, or refuses it. -/
theorem write_id {block : FileTransferBlock} : (job.write P fs block).job.id = job.id := by
  unfold write
  split
  · rfl
  · refine Outcome.andThen_keeps (Q := fun job' _ => job'.id = job.id) admitBlock_id ?_
    intro job' fs' hid
    refine Outcome.andThen_keeps (Q := fun job' _ => job'.id = job.id)
      (openForBlock_id.trans hid) ?_
    exact fun job'' fs'' hid' => appendBlock_id.trans hid'

/-- A job keeps its id when it is told where to go on. -/
theorem confirm_id {r : FileTransferSendConfirmRequest} : (job.confirm P fs r).id = job.id := by
  have hoffset : ∀ (job' : TransferJob) (n offset : Nat), job'.id = job.id →
      (job'.setStreamOffset P fs n offset).id = job.id := by
    intro job' n offset hid
    unfold setStreamOffset
    split
    · split
      · exact hid
      · split <;> exact hid
    · exact hid
  unfold confirm
  split
  · rfl
  · split
    · rfl
    · rfl
    · split
      · exact hoffset _ _ _ rfl
      · rfl
    · rfl

end TransferJob

namespace DeviceRemote

/-- The job of an upload of the tool bears the id it was asked for with. -/
theorem prepare_id {H : Host} {fs fs' : Fs} {serial : Nat} {target : String} {id fileNum : Int}
    {files : List (String × Nat)} {size : Nat} {job : TransferJob}
    (h : prepare H fs serial target id fileNum files size = (.ok job, fs')) : job.id = id := by
  have hnew : ∀ (fs : Fs) (directory : PathBuf) (modified : Nat) {job : TransferJob},
      newJob H fs directory serial id modified size = .ok job → job.id = id := by
    intro fs directory modified job hjob
    unfold newJob at hjob
    split at hjob
    · cases hjob
    · split at hjob
      · cases hjob
      · rename_i hset
        obtain ⟨-, rfl⟩ := setFiles_eq hset
        cases hjob
        rfl
  unfold prepare at h
  by_cases hwindows : ¬ H.platform.windows = true
  · rw [if_pos hwindows] at h
    cases h
  · rw [if_neg hwindows] at h
    split at h
    · rename_i name modified
      split_ifs at h
      · cases h
      · split at h
        · cases h
        · exact hnew _ _ modified (congrArg Prod.fst h)
    · cases h

end DeviceRemote

namespace FsMessage

/-- The id under which a message opens a job. -/
def opensId : FsMessage → Option Int
  | .newWrite _ id _ _ _ _ => some id
  | _ => none

/-- The id of the job that a message takes off the list. -/
def endsId : FsMessage → Option Int
  | .cancelWrite id => some id
  | .writeDone id _ => some id
  | .writeError id _ _ => some id
  | _ => none

/-- The id of the job that a message makes write. -/
def writesId : FsMessage → Option Int
  | .writeBlock id _ _ _ => some id
  | .writeDone id _ => some id
  | _ => none

end FsMessage

/-- The answer reports a success. -/
def CmAnswer.succeeds : CmAnswer → Bool
  | .done _ _ => true
  | .outcome _ succeeded => succeeded
  | _ => false

/-- The number and the id of a job. -/
def CmJob.key (j : CmJob) : Nat × Int := (j.serial, j.job.id)

namespace Cm

variable (H : Host)

/-- The numbers and ids of the jobs on the list. -/
def keys (cm : Cm) : List (Nat × Int) := cm.jobs.map CmJob.key

/-- The number of the job that a message is about. -/
def about (cm : Cm) : FsMessage → Option Nat
  | .newWrite _ _ _ _ _ _ => some cm.opened
  | .cancelWrite id => (getJob id cm.jobs).map CmJob.serial
  | .writeDone id _ => (getJob id cm.jobs).map CmJob.serial
  | .writeError id _ _ => (getJob id cm.jobs).map CmJob.serial
  | .writeBlock id _ _ _ => (getJob id cm.jobs).map CmJob.serial
  | .checkDigest id _ _ _ _ _ => (getJob id cm.jobs).map CmJob.serial
  | .sendConfirm r => r.bind fun r => (getJob r.id cm.jobs).map CmJob.serial

/-- How much a job has written: the blocks it has taken, and its finalisation. -/
def work (cm : Cm) (serial : Nat) : Nat :=
  (cm.accepted.filter fun a => a.1 = serial).length + cm.finished.count serial

/-- What a message can do to the connection manager. -/
structure Handled (cm : Cm) (m : FsMessage) (cm' : Cm) (answers : List CmAnswer) : Prop where
  opened : cm'.opened = cm.opened + m.opensId.toList.length
  keys : cm'.keys.Sublist (cm.keys ++ m.opensId.toList.map fun id => (cm.opened, id))
  ends : ∀ id, m.endsId = some id → cm'.keys = cm.keys.eraseP fun k => k.2 = id
  work : ∀ n, (∀ id, m.writesId = some id → cm.about m ≠ some n) → cm'.work n = cm.work n
  finished : ∀ n ∈ cm.finished, n ∈ cm'.finished
  success : ∀ a ∈ answers, a.succeeds = true → ∃ n ∈ cm'.finished, cm.about m = some n
  failure : ∀ a ∈ answers, ∀ id, a = .outcome id false → m.endsId = some id

variable {H} {cm : Cm} {id : Int} {j : CmJob} {jobs : List CmJob}

theorem keys_removeJob (id : Int) (jobs : List CmJob) :
    (removeJob id jobs).map CmJob.key = (jobs.map CmJob.key).eraseP fun k => k.2 = id := by
  unfold removeJob
  rw [List.eraseP_map]
  rfl

theorem keys_setJob {job : TransferJob} (h : job.id = id) (jobs : List CmJob) :
    (setJob id job jobs).map CmJob.key = jobs.map CmJob.key := by
  induction jobs with
  | nil => rfl
  | cons j jobs ih =>
    unfold setJob
    split_ifs with hj
    · simp only [List.map_cons, CmJob.key, h, hj]
    · rw [List.map_cons, List.map_cons, ih]

/-- The job that is found is on the list, under its id. -/
theorem of_getJob (h : getJob id jobs = some j) : j ∈ jobs ∧ j.job.id = id :=
  ⟨List.mem_of_find?_eq_some h, by simpa using List.find?_some h⟩

/-- A message that leaves the jobs, and what they have written, is answered with an error or
not at all. -/
theorem handled_of_same {m : FsMessage} {cm' : Cm} {answers : List CmAnswer}
    (hopens : m.opensId = none) (hends : m.endsId = none) (hopened : cm'.opened = cm.opened)
    (hkeys : cm'.keys.Sublist cm.keys) (haccepted : cm'.accepted = cm.accepted)
    (hfinished : cm'.finished = cm.finished)
    (hfails : ∀ a ∈ answers, a.succeeds = false ∧ ∀ id, a ≠ .outcome id false) :
    Handled cm m cm' answers where
  opened := by rw [hopened, hopens]; rfl
  keys := by rw [hopens, Option.toList_none, List.map_nil, List.append_nil]; exact hkeys
  ends id h := by rw [hends] at h; cases h
  work n _ := by unfold work; rw [haccepted, hfinished]
  finished n hn := hfinished ▸ hn
  success a ha hsucc := absurd hsucc (by rw [(hfails a ha).1]; exact Bool.false_ne_true)
  failure a ha id hfail := absurd hfail ((hfails a ha).2 id)

/-- A message that only takes a job off the list. -/
theorem handled_of_ended {m : FsMessage} {cm' : Cm} {answers : List CmAnswer}
    (hopens : m.opensId = none) (hends : m.endsId = some id) (hopened : cm'.opened = cm.opened)
    (hkeys : cm'.keys = cm.keys.eraseP fun k => k.2 = id) (haccepted : cm'.accepted = cm.accepted)
    (hfinished : cm'.finished = cm.finished)
    (hfails : ∀ a ∈ answers, a.succeeds = false ∧ ∀ id, a ≠ .outcome id false) :
    Handled cm m cm' answers where
  opened := by rw [hopened, hopens]; rfl
  keys := by
    rw [hopens, Option.toList_none, List.map_nil, List.append_nil, hkeys]
    exact List.eraseP_sublist
  ends id' h := by
    obtain rfl : id = id' := Option.some.inj (hends.symm.trans h)
    exact hkeys
  work n _ := by unfold work; rw [haccepted, hfinished]
  finished n hn := hfinished ▸ hn
  success a ha hsucc := absurd hsucc (by rw [(hfails a ha).1]; exact Bool.false_ne_true)
  failure a ha id hfail := absurd hfail ((hfails a ha).2 id)

/-- Without a job of its id, a message takes nothing off the list. -/
theorem keys_of_getJob_none (h : getJob id cm.jobs = none) :
    cm.keys = cm.keys.eraseP fun k => k.2 = id := by
  refine (List.eraseP_of_forall_not ?_).symm
  intro k hk
  obtain ⟨j, hj, rfl⟩ := List.mem_map.mp hk
  exact List.find?_eq_none.mp h j hj

/-- Counting apart from one job. -/
theorem work_of_about {cm' : Cm} {n : Nat} (serial : Nat) (data : List Bytes)
    (finished : List Nat) (haccepted : cm'.accepted = cm.accepted ++ data.map fun d => (serial, d))
    (hfinished : cm'.finished = cm.finished ++ finished) (hall : ∀ k ∈ finished, k = serial)
    (hn : serial ≠ n) : cm'.work n = cm.work n := by
  have hnone : (data.map fun d => (serial, d)).filter (fun a => decide (a.1 = n)) = [] := by
    rw [List.filter_eq_nil_iff]
    intro a ha
    obtain ⟨d, -, rfl⟩ := List.mem_map.mp ha
    simpa using hn
  have hcount : finished.count n = 0 := by
    rw [List.count_eq_zero]
    exact fun hin => hn (hall n hin).symm
  unfold work
  rw [haccepted, hfinished, List.filter_append, hnone, List.append_nil, List.count_append, hcount,
    Nat.add_zero]

/-- The end of a job. -/
theorem handled_writeDone (env : Surroundings) (cm : Cm) (id fileNum : Int) :
    Handled cm (.writeDone id fileNum) (writeDone H env cm id fileNum).1
      (writeDone H env cm id fileNum).2 := by
  unfold writeDone
  split
  · rename_i hnone
    exact handled_of_ended rfl rfl rfl (keys_of_getJob_none hnone) rfl rfl
      fun _ h => absurd h List.not_mem_nil
  · rename_i j hj
    have habout : cm.about (.writeDone id fileNum) = some j.serial := by
      rw [about, hj, Option.map_some]
    have hkeys := keys_removeJob id cm.jobs
    have hsub : ((removeJob id cm.jobs).map CmJob.key).Sublist (cm.keys ++ []) := by
      rw [hkeys, List.append_nil]
      exact List.eraseP_sublist
    dsimp only
    split
    · refine ⟨rfl, hsub, ?_, ?_, ?_, ?_, ?_⟩
      · intro id' hid
        cases hid
        exact hkeys
      · intro n hn
        refine work_of_about j.serial [] [j.serial] (List.append_nil _).symm rfl
          (fun k hk => List.mem_singleton.mp hk) ?_
        exact fun heq => hn id rfl (heq ▸ habout)
      · exact fun n hn => List.mem_append_left _ hn
      · exact fun a _ _ => ⟨j.serial, List.mem_append_right _ (List.mem_singleton_self _), habout⟩
      · intro a ha id' hfail
        rw [hfail] at ha
        simp only [List.mem_cons, CmAnswer.outcome.injEq, reduceCtorEq, List.not_mem_nil,
          or_false] at ha
        rw [ha.1]
        rfl
    · refine ⟨rfl, hsub, ?_, fun _ _ => rfl, fun n hn => hn, ?_, ?_⟩
      · intro id' hid
        cases hid
        exact hkeys
      · intro a ha hsucc
        rcases List.mem_cons.mp ha with rfl | ha
        · cases hsucc
        · rw [List.mem_singleton.mp ha] at hsucc
          cases hsucc
      · intro a ha id' hfail
        rw [hfail] at ha
        simp only [List.mem_cons, CmAnswer.outcome.injEq, reduceCtorEq, List.not_mem_nil,
          or_false] at ha
        rw [ha.1]
        rfl

/-- A block for a job. -/
theorem handled_writeBlock (cm : Cm) (id fileNum : Int) (data : Bytes) (compressed : Bool) :
    Handled cm (.writeBlock id fileNum data compressed)
      (writeBlock H cm id fileNum data compressed).1
      (writeBlock H cm id fileNum data compressed).2 := by
  unfold writeBlock
  split
  · exact handled_of_same rfl rfl rfl (List.Sublist.refl _) rfl rfl
      fun _ h => absurd h List.not_mem_nil
  · rename_i j hj
    have habout : cm.about (.writeBlock id fileNum data compressed) = some j.serial := by
      rw [about, hj, Option.map_some]
    generalize hblock : ({ id, fileNum, data, compressed } : FileTransferBlock) = block
    have hset : (setJob id (j.job.write H.platform cm.fs block).job cm.jobs).map CmJob.key =
        cm.keys := keys_setJob (TransferJob.write_id.trans (of_getJob hj).2) cm.jobs
    have hfails : ∀ e, ∀ a ∈ [CmAnswer.error id e fileNum],
        a.succeeds = false ∧ ∀ id, a ≠ .outcome id false := by
      intro e a ha
      rw [List.mem_singleton.mp ha]
      exact ⟨rfl, nofun⟩
    have hgoal : ∀ (cm' : Cm) (answers : List CmAnswer), cm'.opened = cm.opened →
        cm'.keys.Sublist cm.keys →
        cm'.accepted = cm.accepted ++
          (acceptedData H.platform j.job cm.fs block).map (fun data => (j.serial, data)) →
        cm'.finished = cm.finished →
        (∀ a ∈ answers, a.succeeds = false ∧ ∀ id, a ≠ .outcome id false) →
        Handled cm (.writeBlock id fileNum data compressed) cm' answers := by
      intro cm' answers hopened hkeys haccepted hfinished hnot
      refine ⟨hopened, ?_, nofun, ?_, fun n hn => hfinished ▸ hn, ?_, ?_⟩
      · exact (List.append_nil cm.keys).symm ▸ hkeys
      · intro n hn
        refine work_of_about j.serial _ [] haccepted (by rw [hfinished, List.append_nil])
          (fun _ hk => absurd hk List.not_mem_nil) ?_
        exact fun heq => hn id rfl (heq ▸ habout)
      · exact fun a ha hsucc => absurd hsucc (by rw [(hnot a ha).1]; exact Bool.false_ne_true)
      · exact fun a ha id' hfail => absurd hfail ((hnot a ha).2 id')
    dsimp only
    split
    · exact hgoal _ _ rfl (by rw [keys, hset]) rfl rfl fun _ h => absurd h List.not_mem_nil
    · split_ifs
      · refine hgoal _ _ rfl ?_ rfl rfl (hfails _)
        rw [keys, keys_removeJob, hset]
        exact List.eraseP_sublist
      · exact hgoal _ _ rfl (by rw [keys, hset]) rfl rfl (hfails _)

/-- A digest for a job. -/
theorem handled_checkDigest (env : Surroundings) (cm : Cm) (id fileNum : Int)
    (fileSize lastModified : Nat) (isUpload isResume : Bool) :
    Handled cm (.checkDigest id fileNum fileSize lastModified isUpload isResume)
      (checkDigest H env cm id fileNum fileSize lastModified isUpload isResume).1
      (checkDigest H env cm id fileNum fileSize lastModified isUpload isResume).2 := by
  have hnone : ∀ a ∈ ([] : List CmAnswer), a.succeeds = false ∧ ∀ id, a ≠ .outcome id false :=
    fun _ h => absurd h List.not_mem_nil
  have herror : ∀ e, ∀ a ∈ [CmAnswer.error id e fileNum],
      a.succeeds = false ∧ ∀ id, a ≠ .outcome id false := by
    intro e a ha
    rw [List.mem_singleton.mp ha]
    exact ⟨rfl, nofun⟩
  unfold checkDigest
  split
  · exact handled_of_same rfl rfl rfl (List.Sublist.refl _) rfl rfl hnone
  · rename_i j hj
    split_ifs
    · refine handled_of_same rfl rfl rfl ?_ rfl rfl (herror _)
      rw [keys, keys_removeJob]
      exact List.eraseP_sublist
    · refine handled_of_same rfl rfl rfl (List.Sublist.refl _) rfl rfl fun a ha => ?_
      rw [List.mem_singleton.mp ha]
      exact ⟨rfl, nofun⟩
    · split
      · split
        · exact handled_of_same rfl rfl rfl (List.Sublist.refl _) rfl rfl (herror _)
        · rename_i result _
          have hid : (j.job.setDigest fileSize lastModified).id = id := (of_getJob hj).2
          generalize j.job.setDigest fileSize lastModified = job at hid
          cases result with
          | isSame =>
            refine handled_of_same rfl rfl rfl ?_ rfl rfl fun a ha => ?_
            · rw [keys, answerDigest, keys_setJob (by exact hid)]
              exact List.Sublist.refl _
            · rw [answerDigest, List.mem_singleton] at ha
              rw [ha]
              exact ⟨rfl, nofun⟩
          | needConfirm digest =>
            refine handled_of_same rfl rfl rfl ?_ rfl rfl fun a ha => ?_
            · rw [keys, answerDigest, keys_setJob hid]
              exact List.Sublist.refl _
            · rw [answerDigest, List.mem_singleton] at ha
              rw [ha]
              exact ⟨rfl, nofun⟩
          | noSuchFile =>
            refine handled_of_same rfl rfl rfl ?_ rfl rfl fun a ha => ?_
            · rw [keys, answerDigest, keys_setJob hid]
              exact List.Sublist.refl _
            · rw [answerDigest, List.mem_singleton] at ha
              rw [ha]
              exact ⟨rfl, nofun⟩
      · exact handled_of_same rfl rfl rfl (List.Sublist.refl _) rfl rfl hnone

/-- A request for a job. -/
theorem handled_newWrite (env : Surroundings) (cm : Cm) (path : String) (id fileNum : Int)
    (files : List (String × Nat)) (overwriteDetection : Bool) (totalSize : Nat) :
    Handled cm (.newWrite path id fileNum files overwriteDetection totalSize)
      (handleFs H env cm (.newWrite path id fileNum files overwriteDetection totalSize)).1
      (handleFs H env cm (.newWrite path id fileNum files overwriteDetection totalSize)).2 := by
  have hgoal : ∀ (cm' : Cm) (answers : List CmAnswer), cm'.opened = cm.opened + 1 →
      (cm'.keys.Sublist cm.keys ∨ cm'.keys = cm.keys ++ [(cm.opened, id)]) →
      cm'.accepted = cm.accepted → cm'.finished = cm.finished →
      (∀ a ∈ answers, a.succeeds = false ∧ ∀ id, a ≠ .outcome id false) →
      Handled cm (.newWrite path id fileNum files overwriteDetection totalSize) cm' answers := by
    intro cm' answers hopened hkeys haccepted hfinished hnot
    refine ⟨hopened, ?_, nofun, ?_, fun n hn => hfinished ▸ hn, ?_, ?_⟩
    · rcases hkeys with hkeys | hkeys
      · exact hkeys.trans (List.sublist_append_left _ _)
      · rw [hkeys]
        exact List.Sublist.refl _
    · intro n _
      unfold work
      rw [haccepted, hfinished]
    · exact fun a ha hsucc => absurd hsucc (by rw [(hnot a ha).1]; exact Bool.false_ne_true)
    · exact fun a ha id' hfail => absurd hfail ((hnot a ha).2 id')
  have hnone : ∀ a ∈ ([] : List CmAnswer), a.succeeds = false ∧ ∀ id, a ≠ .outcome id false :=
    fun _ h => absurd h List.not_mem_nil
  have herror : ∀ e, ∀ a ∈ [CmAnswer.error id e fileNum],
      a.succeeds = false ∧ ∀ id, a ≠ .outcome id false := by
    intro e a ha
    rw [List.mem_singleton.mp ha]
    exact ⟨rfl, nofun⟩
  have hsame : ∀ {cm' : Cm}, cm'.jobs = cm.jobs → cm'.keys.Sublist cm.keys := by
    intro cm' hjobs
    rw [keys, hjobs]
    exact List.Sublist.refl _
  unfold handleFs
  dsimp only
  split_ifs
  · unfold newDeviceRemote
    split_ifs
    · dsimp only
      split
      · exact hgoal _ _ rfl (.inl (hsame rfl)) rfl rfl (herror _)
      · refine hgoal _ _ rfl (.inl ?_) rfl rfl (herror _)
        rw [keys, keys_removeJob]
        exact List.eraseP_sublist
    · split
      · exact hgoal _ _ rfl (.inl (hsame rfl)) rfl rfl (herror _)
      · rename_i hprepare
        refine hgoal _ _ rfl (.inr ?_) rfl rfl hnone
        rw [keys, List.map_append, List.map_singleton, CmJob.key,
          DeviceRemote.prepare_id hprepare]
        rfl
  · unfold newOrdinary
    split
    · exact hgoal _ _ rfl (.inl (hsame rfl)) rfl rfl (herror _)
    · split
      · exact hgoal _ _ rfl (.inl (hsame rfl)) rfl rfl (herror _)
      · rename_i hset
        obtain ⟨-, rfl⟩ := setFiles_eq hset
        refine hgoal _ _ rfl (.inr ?_) rfl rfl hnone
        rw [keys, List.map_append, List.map_singleton]
        rfl

/-- What each message can do. -/
theorem handled_handleFs (env : Surroundings) (cm : Cm) (m : FsMessage) :
    Handled cm m (handleFs H env cm m).1 (handleFs H env cm m).2 := by
  have hnone : ∀ a ∈ ([] : List CmAnswer), a.succeeds = false ∧ ∀ id, a ≠ .outcome id false :=
    fun _ h => absurd h List.not_mem_nil
  cases m with
  | newWrite path id fileNum files overwriteDetection totalSize =>
    exact handled_newWrite env cm path id fileNum files overwriteDetection totalSize
  | cancelWrite id =>
    unfold handleFs
    dsimp only
    split
    · rename_i hget
      exact handled_of_ended rfl rfl rfl (keys_of_getJob_none hget) rfl rfl hnone
    · exact handled_of_ended rfl rfl rfl (keys_removeJob id cm.jobs) rfl rfl hnone
  | writeDone id fileNum => exact handled_writeDone env cm id fileNum
  | writeError id fileNum err =>
    unfold handleFs
    dsimp only
    split
    · rename_i hget
      exact handled_of_ended rfl rfl rfl (keys_of_getJob_none hget) rfl rfl hnone
    · refine handled_of_ended rfl rfl rfl (keys_removeJob id cm.jobs) rfl rfl fun a ha => ?_
      rw [List.mem_singleton.mp ha]
      exact ⟨rfl, nofun⟩
  | writeBlock id fileNum data compressed => exact handled_writeBlock cm id fileNum data compressed
  | checkDigest id fileNum fileSize lastModified isUpload isResume =>
    exact handled_checkDigest env cm id fileNum fileSize lastModified isUpload isResume
  | sendConfirm parsed =>
    cases parsed with
    | none => exact handled_of_same rfl rfl rfl (List.Sublist.refl _) rfl rfl hnone
    | some r =>
      refine handled_of_same rfl rfl ?_ ?_ ?_ ?_ hnone
      all_goals
        unfold handleFs sendConfirm
        dsimp only
        split
      · rfl
      · rfl
      · exact List.Sublist.refl _
      · rename_i j hj
        rw [keys, keys_setJob (TransferJob.confirm_id.trans ?_)]
        · exact List.Sublist.refl _
        · split_ifs <;> exact (of_getJob hj).2
      all_goals rfl

end Cm

end MDesk
