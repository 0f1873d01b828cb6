import MDesk.Server.FileTransfer

/-!
# What a round leaves of the reading jobs

Jobs keep their numbers and ids, at most one of them ends in a round, and what is sent
belongs to a job on the list.
-/

namespace MDesk

open MDesk.Core

namespace TransferJob

variable {P : Platform} {job : TransferJob} {fs : Fs}

@[simp] theorem abandoned_id {e : String} : (job.abandoned e).id = job.id := by rw [abandoned]

@[simp] theorem nextFile_id : job.nextFile.id = job.id := by rw [nextFile]

/-- Opening the current file keeps the id. -/
theorem openDataStream_id (P : Platform) (fs : Fs) (job : TransferJob) :
    (job.openDataStream P fs).2.id = job.id := by
  unfold openDataStream
  split
  · split
    · rfl
    · split_ifs
      · rfl
      · split
        · exact abandoned_id
        · split
          · exact nextFile_id
          · split
            · exact abandoned_id
            · rfl
  · split_ifs <;> rfl

/-- The opening part of a round keeps the id. -/
theorem initJob_id {modified : Modified} : (initJob P fs modified job).2.id = job.id := by
  have hinit : (job.initDataStream P fs modified).2.id = job.id := by
    have hid := openDataStream_id P fs job
    unfold initDataStream
    split
    all_goals
      rename_i hopen
      rw [hopen] at hid
    · exact hid
    · exact hid
    · split_ifs
      · split <;> exact hid
      · exact hid
  unfold initJob
  split_ifs
  · rfl
  · split
    all_goals
      rename_i hopen
      rw [hopen] at hinit
      exact hinit

/-- A read keeps the id. -/
theorem read_id (P : Platform) (fs : Fs) (job : TransferJob) : (job.read P fs).2.id = job.id := by
  unfold read
  split
  · rfl
  · split
    · rfl
    · split
      · rfl
      · split
        · exact nextFile_id
        · split
          · exact nextFile_id
          · rfl
        · rfl

/-- A read of the job at the front leaves it with its id, and ends it or not. -/
theorem readJob_cases (P : Platform) (fs : Fs) (job : TransferJob) :
    ∃ job', job'.id = job.id ∧ (job.readJob P fs).jobs = [job'] ∧
      ((job.readJob P fs).finished = [] ∨ (job.readJob P fs).finished = [job']) := by
  have hid := read_id P fs job
  refine ⟨(job.read P fs).2, hid, ?_⟩
  unfold readJob
  split
  all_goals
    rename_i hread
    rw [hread]
  · exact ⟨rfl, .inl rfl⟩
  · exact ⟨rfl, .inl rfl⟩
  · split_ifs
    · exact ⟨rfl, .inr rfl⟩
    · exact ⟨rfl, .inl rfl⟩

/-- A direct job bears the id it was asked for with. -/
theorem newDirectRead_id {id : Int} {source : PathBuf} {manifest : DirectTransferManifest}
    (h : newDirectRead P id source manifest = .ok job) : job.id = id := by
  unfold newDirectRead at h
  split at h
  · cases h
  · split_ifs at h
    cases h
    rfl

end TransferJob

/-- The number and the id of a reading job. -/
def HostJob.key (j : HostJob) : Nat × Int := (j.serial, j.job.id)

namespace Connection

variable {P : Platform} {fs : Fs} {jobs : List HostJob}

/-- The loop over the jobs keeps their numbers and ids. -/
theorem readFront_spec (P : Platform) (fs : Fs) (jobs : List HostJob) :
    let round := readFront P fs jobs
    round.jobs.map HostJob.key = jobs.map HostJob.key ∧
      (round.finished = [] ∨
        ∃ j, round.finished = [j] ∧ j.key ∈ jobs.map HostJob.key) ∧
      ∀ n ∈ round.sent, n ∈ jobs.map HostJob.serial := by
  induction jobs with
  | nil => exact ⟨rfl, .inl rfl, fun _ hn => hn⟩
  | cons j jobs ih =>
    rw [readFront]
    split_ifs
    · obtain ⟨hkeys, hfinished, hsent⟩ := ih
      refine ⟨congrArg (j.key :: ·) hkeys, ?_, fun n hn => List.mem_cons_of_mem _ (hsent n hn)⟩
      rcases hfinished with hnil | ⟨k, hk, hkey⟩
      · exact .inl hnil
      · exact .inr ⟨k, hk, List.mem_cons_of_mem _ hkey⟩
    · obtain ⟨job', hid, hjobs, hfinished⟩ := TransferJob.readJob_cases P fs j.job
      have hkey : HostJob.key { j with job := job' } = j.key := by
        rw [HostJob.key, HostJob.key, hid]
      dsimp only
      refine ⟨?_, ?_, fun n hn => ?_⟩
      · rw [hjobs, List.map_append, List.map_singleton, List.map_singleton, hkey]
        rfl
      · rcases hfinished with hnil | hone
        · exact .inl (by rw [hnil, List.map_nil])
        · refine .inr ⟨{ j with job := job' }, by rw [hone, List.map_singleton], ?_⟩
          rw [hkey]
          exact List.mem_cons_self
      · obtain ⟨-, -, rfl⟩ := List.mem_map.mp hn
        exact List.mem_cons_self

/-- Removing a job by its id. -/
theorem removeJob_key (id : Int) (jobs : List HostJob) :
    (removeJob id jobs).map HostJob.key = (jobs.map HostJob.key).eraseP fun k => k.2 = id := by
  unfold removeJob
  rw [List.eraseP_map]
  rfl

/-- With ids of their own, the jobs that are left do not bear the id of the removed one. -/
theorem not_mem_eraseP {keys : List (Nat × Int)} {id : Int} (h : (keys.map Prod.snd).Nodup)
    {k : Nat × Int} (hk : k ∈ keys.eraseP fun k => k.2 = id) : k.2 ≠ id := by
  induction keys with
  | nil => cases hk
  | cons k' keys ih =>
    obtain ⟨hnot, hrest⟩ := List.nodup_cons.mp (by rwa [List.map_cons] at h)
    by_cases hid : k'.2 = id
    · rw [List.eraseP_cons_of_pos (by simpa using hid)] at hk
      exact fun heq => hnot (List.mem_map.mpr ⟨k, hk, heq.trans hid.symm⟩)
    · rw [List.eraseP_cons_of_neg (by simpa using hid)] at hk
      rcases List.mem_cons.mp hk with rfl | hin
      · exact hid
      · exact ih hrest hin

/-- A round over the jobs. -/
theorem handleReadJobs_spec (P : Platform) (fs : Fs) (modified : TransferJob.Modified)
    (jobs : List HostJob) (h : ((jobs.map HostJob.key).map Prod.snd).Nodup) :
    let round := handleReadJobs P fs modified jobs
    (round.jobs.map HostJob.key).Sublist (jobs.map HostJob.key) ∧
      (round.finished = [] ∨ ∃ j, round.finished = [j] ∧ j.key ∈ jobs.map HostJob.key ∧
        ∀ k ∈ round.jobs, k.job.id ≠ j.job.id) ∧
      ∀ n ∈ round.sent, n ∈ jobs.map HostJob.serial := by
  have hinit : (jobs.map fun j => ({ j with job := (j.job.initJob P fs modified).2 } :
      HostJob)).map HostJob.key = jobs.map HostJob.key := by
    rw [List.map_map]
    refine List.map_congr_left fun j _ => ?_
    simp only [Function.comp_apply, HostJob.key, TransferJob.initJob_id]
  have hserials : (jobs.map fun j => ({ j with job := (j.job.initJob P fs modified).2 } :
      HostJob)).map HostJob.serial = jobs.map HostJob.serial := by
    rw [List.map_map]
    rfl
  obtain ⟨hkeys, hfinished, hsent⟩ := readFront_spec P fs
    (jobs.map fun j => { j with job := (j.job.initJob P fs modified).2 })
  rw [hinit] at hkeys hfinished
  rw [hserials] at hsent
  unfold handleReadJobs
  dsimp only
  refine ⟨?_, ?_, hsent⟩
  · rcases hfinished with hnil | ⟨j, hj, -⟩
    · rw [hnil, List.foldl_nil, hkeys]
    · rw [hj, List.foldl_cons, List.foldl_nil, removeJob_key, hkeys]
      exact List.eraseP_sublist
  · rcases hfinished with hnil | ⟨j, hj, hkey⟩
    · exact .inl hnil
    · refine .inr ⟨j, hj, hkey, fun k hk => ?_⟩
      rw [hj, List.foldl_cons, List.foldl_nil] at hk
      have hmem := List.mem_map_of_mem (f := HostJob.key) hk
      rw [removeJob_key, hkeys] at hmem
      exact not_mem_eraseP h hmem

/-- Changing a job keeps the numbers and ids. -/
theorem updateJob_key {id : Int} {f : TransferJob → TransferJob} (hf : ∀ job, (f job).id = job.id)
    (jobs : List HostJob) : (updateJob id f jobs).map HostJob.key = jobs.map HostJob.key := by
  induction jobs with
  | nil => rfl
  | cons j jobs ih =>
    unfold updateJob
    split_ifs
    · rw [List.map_cons, List.map_cons, HostJob.key, hf]
      rfl
    · rw [List.map_cons, List.map_cons, ih]

end Connection

end MDesk
