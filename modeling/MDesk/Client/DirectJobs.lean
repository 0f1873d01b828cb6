import MDesk.Client.FileJobs
import MDesk.Direct.Delivery
import MDesk.Transfer.Frame

/-!
# Downloads among the other file jobs

Every active download has one strict writing job, the first with its id, and every strict job
belongs to a download. What the blocks of a session may still store is bounded by what it has
accepted. Only a listing for an active download breaks into this.
-/

namespace MDesk

open MDesk.Core

namespace TransferJob

/-! ## What a job keeps -/

section Fixed

variable {P : Platform} {job : TransferJob} {fs : Fs} {block : FileTransferBlock} {data : Bytes}

theorem addDirectBytes_fixed {n len : Nat} :
    (job.addDirectBytes fs n len).job.fixed = job.fixed := by
  unfold addDirectBytes
  split_ifs <;> rfl

theorem countDirectBlock_fixed {n len : Nat} :
    (job.countDirectBlock fs n len).job.fixed = job.fixed := by
  unfold countDirectBlock
  split_ifs
  · rfl
  · rfl
  · exact addDirectBytes_fixed
  · rfl
  · exact addDirectBytes_fixed

theorem admitBlock_fixed : (job.admitBlock fs block data).job.fixed = job.fixed := by
  unfold admitBlock
  split_ifs
  · rfl
  · unfold advanceDirectFile
    split_ifs
    · rfl
    · rfl
    · exact countDirectBlock_fixed
    · exact countDirectBlock_fixed
  · rfl

theorem createStaging_fixed {path : PathBuf} :
    (job.createStaging fs path).job.fixed = job.fixed := by
  unfold createStaging
  dsimp only
  split
  · rfl
  · split
    · rfl
    · split <;> rfl

theorem openEntry_fixed {base : PathBuf} {n : Int} :
    (job.openEntry P fs base n).job.fixed = job.fixed := by
  unfold openEntry
  dsimp only
  split
  · split <;> rfl
  · split
    · rfl
    · exact createStaging_fixed

theorem finalizeWrite_fixed : (job.finalizeWrite P fs).job.fixed = job.fixed := by
  unfold finalizeWrite
  split_ifs <;> rfl

theorem openForBlock_fixed : (job.openForBlock P fs block).job.fixed = job.fixed := by
  unfold openForBlock
  split
  · split_ifs
    · exact Outcome.andThen_keeps (Q := fun j _ => j.fixed = job.fixed) finalizeWrite_fixed
        fun j fs' hj => openEntry_fixed.trans hj
    · rfl
  · split <;> rfl

theorem appendBlock_fixed : (job.appendBlock fs block data).job.fixed = job.fixed := by
  unfold appendBlock
  split <;> rfl

/-- A block changes nothing that a job is made of, whatever its type is. -/
theorem write_fixed : (job.write P fs block).job.fixed = job.fixed := by
  unfold write
  split
  · rfl
  · refine Outcome.andThen_keeps (Q := fun j _ => j.fixed = job.fixed) admitBlock_fixed ?_
    intro j fs' hj
    refine Outcome.andThen_keeps (Q := fun j _ => j.fixed = job.fixed)
      (openForBlock_fixed.trans hj) ?_
    exact fun j' fs'' hj' => appendBlock_fixed.trans hj'

theorem setStreamOffset_fixed {n offset : Nat} :
    (job.setStreamOffset P fs n offset).fixed = job.fixed := by
  unfold setStreamOffset
  split
  · split
    · rfl
    · split <;> rfl
  · rfl

theorem confirm_fixed {r : FileTransferSendConfirmRequest} :
    (job.confirm P fs r).fixed = job.fixed := by
  unfold confirm
  split
  · rfl
  · split
    · rfl
    · rfl
    · split_ifs
      · exact setStreamOffset_fixed
      · rfl
    · rfl

/-- An answer without an offset does not count anything. -/
theorem confirm_finishedSize {r : FileTransferSendConfirmRequest}
    (h : r.union = some (.offsetBlk 0) ∨ r.union = some (.skip true)) :
    (job.confirm P fs r).finishedSize = job.finishedSize := by
  unfold confirm
  rcases h with h | h
  all_goals
    rw [h]
    split_ifs <;> rfl

/-- What the strict checks grant fits into the total. -/
theorem admitBlock_total (hstrict : job.strictDirectTransfer = true)
    (h : (job.admitBlock fs block data).result = .ok ()) :
    (job.admitBlock fs block data).job.finishedSize = job.finishedSize ∧
      job.finishedSize + data.length < 2 ^ 64 ∧
      job.finishedSize + data.length ≤ job.totalSize := by
  have hadd : ∀ (j : TransferJob) (n : Nat), j.finishedSize = job.finishedSize →
      j.totalSize = job.totalSize → (j.addDirectBytes fs n data.length).result = .ok () →
      (j.addDirectBytes fs n data.length).job.finishedSize = job.finishedSize ∧
        job.finishedSize + data.length < 2 ^ 64 ∧
        job.finishedSize + data.length ≤ job.totalSize := by
    intro j n hfinished htotal hok
    unfold addDirectBytes at hok ⊢
    split_ifs at hok ⊢
    · cases hok
    · cases hok
    · cases hok
    · cases hok
    · exact ⟨hfinished, by omega, by omega⟩
  have hcount : ∀ (j : TransferJob) (n : Nat), j.finishedSize = job.finishedSize →
      j.totalSize = job.totalSize → (j.countDirectBlock fs n data.length).result = .ok () →
      (j.countDirectBlock fs n data.length).job.finishedSize = job.finishedSize ∧
        job.finishedSize + data.length < 2 ^ 64 ∧
        job.finishedSize + data.length ≤ job.totalSize := by
    intro j n hfinished htotal hok
    unfold countDirectBlock at hok ⊢
    split_ifs at hok ⊢
    · cases hok
    · cases hok
    · exact hadd _ n hfinished htotal hok
    · cases hok
    · exact hadd j n hfinished htotal hok
  unfold admitBlock at h ⊢
  rw [if_pos hstrict] at h ⊢
  split_ifs at h ⊢
  · cases h
  · unfold advanceDirectFile at h ⊢
    split_ifs at h ⊢
    · cases h
    · cases h
    · exact hcount _ _ rfl rfl h
    · exact hcount job _ rfl rfl h

/-- A block that a strict job takes is counted, within the total. -/
theorem write_total (hstrict : job.strictDirectTransfer = true)
    (h : (job.write P fs block).result = .ok ()) :
    (job.write P fs block).job.finishedSize =
        job.finishedSize + ((job.acceptedBlock P fs block).map fun a => a.2.length).sum ∧
      (job.write P fs block).job.finishedSize ≤ job.totalSize := by
  cases hdec : job.decodeBlock P block with
  | error e =>
    unfold write at h
    rw [hdec] at h
    cases h
  | ok data =>
    rw [acceptedBlock_ok h hdec]
    unfold write at h ⊢
    rw [hdec] at h ⊢
    dsimp only at h ⊢
    obtain ⟨hallowed, hrest⟩ := Outcome.andThen_ok h
    rw [hrest] at h ⊢
    obtain ⟨hfinished, hmax, htotal⟩ := admitBlock_total hstrict hallowed
    have hcounters := written_counters h
    simp only [counters, Prod.mk.injEq] at hcounters
    rw [hcounters.2.2.1, hfinished, Nat.mod_eq_of_lt hmax]
    exact ⟨by simp, htotal⟩

end Fixed

end TransferJob

/-! ## Lists of jobs -/

section Jobs

open TransferJob

variable {jobs : List TransferJob} {job : TransferJob} {id k : Int} {f : TransferJob → TransferJob}

theorem id_of_getJob (h : getJob id jobs = some job) : job.id = id := by
  simpa using List.find?_some h

theorem mem_of_getJob (h : getJob id jobs = some job) : job ∈ jobs := List.mem_of_find?_eq_some h

theorem getJob_cons :
    getJob id (job :: jobs) = if job.id = id then some job else getJob id jobs := by
  unfold getJob
  rw [List.find?_cons]
  by_cases h : job.id = id <;> simp [h]

theorem removeJob_of_none (h : getJob id jobs = none) : removeJob id jobs = jobs := by
  refine List.eraseP_of_forall_not fun job hjob => ?_
  simpa using List.find?_eq_none.mp h job hjob

theorem updateJob_of_none (h : getJob id jobs = none) : updateJob id f jobs = jobs := by
  induction jobs with
  | nil => rfl
  | cons j jobs ih =>
    rw [getJob_cons] at h
    split_ifs at h with hid
    rw [updateJob, if_neg hid, ih h]

/-- The job that `get_job` finds is the one that `remove_job` takes. -/
theorem removeJob_perm (h : getJob id jobs = some job) :
    jobs.Perm (job :: removeJob id jobs) := by
  induction jobs with
  | nil => cases h
  | cons j jobs ih =>
    rw [getJob_cons] at h
    split_ifs at h with hid
    · cases h
      rw [removeJob, List.eraseP_cons_of_pos (by simpa using hid)]
    · rw [removeJob, List.eraseP_cons_of_neg (by simpa using hid)]
      exact ((ih h).cons j).trans (List.Perm.swap job j _)

theorem updateJob_perm (h : getJob id jobs = some job) :
    (updateJob id f jobs).Perm (f job :: removeJob id jobs) := by
  induction jobs with
  | nil => cases h
  | cons j jobs ih =>
    rw [getJob_cons] at h
    split_ifs at h with hid
    · cases h
      rw [updateJob, if_pos hid, removeJob, List.eraseP_cons_of_pos (by simpa using hid)]
    · rw [updateJob, if_neg hid, removeJob, List.eraseP_cons_of_neg (by simpa using hid)]
      exact ((ih h).cons j).trans (List.Perm.swap (f job) j _)

theorem getJob_removeJob_of_ne (h : k ≠ id) : getJob k (removeJob id jobs) = getJob k jobs := by
  induction jobs with
  | nil => rfl
  | cons j jobs ih =>
    by_cases hid : j.id = id
    · rw [removeJob, List.eraseP_cons_of_pos (by simpa using hid), getJob_cons,
        if_neg (by rw [hid]; exact Ne.symm h)]
    · rw [removeJob, List.eraseP_cons_of_neg (by simpa using hid), getJob_cons, getJob_cons]
      exact congrArg _ ih

theorem getJob_updateJob (hf : ∀ job, getJob id jobs = some job → (f job).id = id) :
    getJob k (updateJob id f jobs) =
      if k = id then (getJob id jobs).map f else getJob k jobs := by
  induction jobs with
  | nil => simp [updateJob, getJob]
  | cons j jobs ih =>
    simp only [getJob_cons] at hf ⊢
    by_cases hid : j.id = id
    · have hfj : (f j).id = id := hf j (if_pos hid)
      rw [updateJob, if_pos hid, getJob_cons, if_pos hid, hid, hfj]
      by_cases hk : k = id
      · rw [if_pos hk.symm, if_pos hk, Option.map_some]
      · rw [if_neg (Ne.symm hk), if_neg hk, if_neg (Ne.symm hk)]
    · rw [updateJob, if_neg hid, getJob_cons, if_neg hid]
      rw [ih fun job hjob => hf job (by rw [if_neg hid]; exact hjob)]
      by_cases hk : k = id
      · rw [if_pos hk, hk, if_neg hid, if_pos rfl]
      · rw [if_neg hk, if_neg hk]

theorem removeJob_updateJob (hf : ∀ job, getJob id jobs = some job → (f job).id = id) :
    removeJob id (updateJob id f jobs) = removeJob id jobs := by
  induction jobs with
  | nil => rfl
  | cons j jobs ih =>
    simp only [getJob_cons] at hf
    by_cases hid : j.id = id
    · rw [updateJob, if_pos hid, removeJob, removeJob,
        List.eraseP_cons_of_pos (by simpa using hf j (if_pos hid)),
        List.eraseP_cons_of_pos (by simpa using hid)]
    · rw [updateJob, if_neg hid, removeJob, removeJob,
        List.eraseP_cons_of_neg (by simpa using hid), List.eraseP_cons_of_neg (by simpa using hid)]
      exact congrArg _ (ih fun job hjob => hf job (by rw [if_neg hid]; exact hjob))

/-- How many strict jobs have an id. -/
def strictCount (id : Int) (jobs : List TransferJob) : Nat :=
  jobs.countP fun job => job.strictDirectTransfer && decide (job.id = id)

/-- What a strict job may still store. -/
def pendingBytes (job : TransferJob) : Nat :=
  if job.strictDirectTransfer then job.totalSize - job.finishedSize else 0

def totalPending (jobs : List TransferJob) : Nat := (jobs.map pendingBytes).sum

theorem strictCount_cons : strictCount id (job :: jobs) =
    strictCount id jobs + if job.strictDirectTransfer ∧ job.id = id then 1 else 0 := by
  unfold strictCount
  rw [List.countP_cons]
  by_cases h : job.strictDirectTransfer ∧ job.id = id <;> simp [h]

theorem strictCount_perm {jobs' : List TransferJob} (h : jobs.Perm jobs') :
    strictCount id jobs = strictCount id jobs' := h.countP_eq _

@[simp] theorem totalPending_cons :
    totalPending (job :: jobs) = pendingBytes job + totalPending jobs := rfl

theorem totalPending_perm {jobs' : List TransferJob} (h : jobs.Perm jobs') :
    totalPending jobs = totalPending jobs' := (h.map pendingBytes).sum_nat

theorem strictCount_concat : strictCount id (jobs ++ [job]) =
    strictCount id jobs + if job.strictDirectTransfer ∧ job.id = id then 1 else 0 := by
  rw [strictCount_perm (List.perm_append_singleton job jobs), strictCount_cons]

theorem totalPending_concat :
    totalPending (jobs ++ [job]) = totalPending jobs + pendingBytes job := by
  rw [totalPending_perm (List.perm_append_singleton job jobs), totalPending_cons, Nat.add_comm]

/-- A strict job counts. -/
theorem strictCount_pos (hjob : job ∈ jobs) (hstrict : job.strictDirectTransfer = true)
    (hid : job.id = id) : 0 < strictCount id jobs :=
  List.countP_pos_iff.mpr ⟨job, hjob, by simp [hstrict, hid]⟩

/-- The only strict job with an id. -/
theorem eq_of_strictCount {job' : TransferJob} (h : strictCount id jobs = 1) (hjob : job ∈ jobs)
    (hjob' : job' ∈ jobs) (hstrict : job.strictDirectTransfer = true)
    (hstrict' : job'.strictDirectTransfer = true) (hid : job.id = id) (hid' : job'.id = id) :
    job = job' := by
  rw [strictCount, List.countP_eq_length_filter] at h
  obtain ⟨only, honly⟩ := List.length_eq_one_iff.mp h
  have hmem : ∀ j ∈ jobs, j.strictDirectTransfer = true → j.id = id → j = only := by
    intro j hj hs hi
    refine List.mem_singleton.mp (honly ▸ List.mem_filter.mpr ⟨hj, ?_⟩)
    simp [hs, hi]
  rw [hmem job hjob hstrict hid, hmem job' hjob' hstrict' hid']

end Jobs

/-! ## The invariant -/

namespace Remote

open TransferJob

variable {H : Host} {r r' : Remote} {id k : Int} {job : TransferJob} {entry : DirectDownloadJob}
  {request : DirectFileTransferReceiveRequest} {f : TransferJob → TransferJob} {n : Nat}

/-- A strict job and its entry have the file list and the size of the manifest they were
accepted with. -/
structure Receives (H : Host) (request : DirectFileTransferReceiveRequest)
    (entry : DirectDownloadJob) (job : TransferJob) : Prop where
  manifest : validateDirectTransferLayout H.platform request.rootName request.isDirectory
    request.files request.emptyDirs request.totalSize = .ok ()
  id : job.id = request.id
  strict : job.strictDirectTransfer = true
  source : job.dataSource = .filePath entry.destination
  files : job.files = request.files
  total : job.totalSize = request.totalSize
  entryTotal : entry.totalSize = request.totalSize
  directory : entry.isDirectory = request.isDirectory

/-- What is expected of the downloads of a session. -/
structure DirectSound (H : Host) (r : Remote) : Prop where
  kept : ∀ id entry, r.directDownloadJobs.get id = some entry →
    ∃ request, r.manifests id = some request ∧ ∀ job ∈ r.writeJobs, job.id = id →
      job.strictDirectTransfer = true → Receives H request entry job
  matched : ∀ id, strictCount id r.writeJobs =
    if (r.directDownloadJobs.get id).isSome then 1 else 0
  few : r.directDownloadJobs.len ≤ directDownloadMaxConcurrent
  bounded : r.written ≤ directTransferMaxTotalBytes

/-- What holds between the events of a session. -/
structure Inv (H : Host) (r : Remote) : Prop where
  active : ∀ id entry, r.directDownloadJobs.get id = some entry →
    ∃ request job, r.manifests id = some request ∧ getJob id r.writeJobs = some job ∧
      Receives H request entry job ∧ job.finishedSize ≤ job.totalSize
  matched : ∀ id, strictCount id r.writeJobs =
    if (r.directDownloadJobs.get id).isSome then 1 else 0
  few : r.directDownloadJobs.len ≤ directDownloadMaxConcurrent
  pending : r.written + totalPending r.writeJobs ≤ r.directDownloadSessionAcceptedBytes
  quota : r.directDownloadSessionAcceptedBytes ≤ directTransferMaxTotalBytes

theorem Inv.sound (h : Inv H r) : DirectSound H r where
  kept id entry hentry := by
    obtain ⟨request, job, hrequest, hjob, hreceives, -⟩ := h.active id entry hentry
    refine ⟨request, hrequest, fun job' hjob' hid hstrict => ?_⟩
    have hone := h.matched id
    rw [hentry, Option.isSome_some, if_pos rfl] at hone
    have hsame := eq_of_strictCount hone (mem_of_getJob hjob) hjob' hreceives.strict hstrict
      (id_of_getJob hjob) hid
    exact hsame ▸ hreceives
  matched := h.matched
  few := h.few
  bounded := by
    have hpending := h.pending
    have hquota := h.quota
    omega

theorem inv_init (fs : Fs) : Inv H { fs } where
  active id entry hentry := by
    rw [show (∅ : Table Int DirectDownloadJob).get id = none from Table.get_empty] at hentry
    cases hentry
  matched id := by
    rw [show (∅ : Table Int DirectDownloadJob).get id = none from Table.get_empty]
    rfl
  few := Nat.zero_le _
  pending := Nat.le_refl _
  quota := Nat.zero_le _

/-- The first job with an id is strict exactly if a download with this id is active. -/
theorem Inv.strict_iff (h : Inv H r) (hjob : getJob id r.writeJobs = some job) :
    job.strictDirectTransfer = true ↔ (r.directDownloadJobs.get id).isSome = true := by
  constructor
  · intro hstrict
    have hpos := strictCount_pos (mem_of_getJob hjob) hstrict (id_of_getJob hjob)
    by_contra hnone
    rw [h.matched, if_neg hnone] at hpos
    exact absurd hpos (Nat.lt_irrefl 0)
  · intro hsome
    obtain ⟨entry, hentry⟩ := Option.isSome_iff_exists.mp hsome
    obtain ⟨request, job', -, hjob', hreceives, -⟩ := h.active id entry hentry
    cases hjob.symm.trans hjob'
    exact hreceives.strict

theorem Inv.finished_le (h : Inv H r) (hjob : getJob id r.writeJobs = some job)
    (hstrict : job.strictDirectTransfer = true) : job.finishedSize ≤ job.totalSize := by
  obtain ⟨entry, hentry⟩ := Option.isSome_iff_exists.mp ((h.strict_iff hjob).mp hstrict)
  obtain ⟨request, job', -, hjob', -, hle⟩ := h.active id entry hentry
  cases hjob.symm.trans hjob'
  exact hle

/-- The job and the entry of an id are gone; the books stay. -/
structure Drops (r : Remote) (id : Int) (r' : Remote) : Prop where
  writeJobs : r'.writeJobs = removeJob id r.writeJobs
  get : ∀ k, r'.directDownloadJobs.get k = if k = id then none else r.directDownloadJobs.get k
  len : r'.directDownloadJobs.len ≤ r.directDownloadJobs.len
  accepted : r'.directDownloadSessionAcceptedBytes = r.directDownloadSessionAcceptedBytes
  manifests : r'.manifests = r.manifests
  written : r'.written = r.written

theorem Inv.drop (h : Inv H r) (id : Int) (hdrop : Drops r id r') : Inv H r' where
  active k entry hentry := by
    rw [hdrop.get] at hentry
    split_ifs at hentry with hk
    rw [hdrop.manifests, hdrop.writeJobs, getJob_removeJob_of_ne hk]
    exact h.active k entry hentry
  matched k := by
    rw [hdrop.get, hdrop.writeJobs]
    have hmatched := h.matched k
    cases hjob : getJob id r.writeJobs with
    | none =>
      rw [removeJob_of_none hjob, hmatched]
      by_cases hk : k = id
      · have hnone : r.directDownloadJobs.get id = none := by
          by_contra hsome
          obtain ⟨entry, hentry⟩ := Option.ne_none_iff_exists'.mp hsome
          obtain ⟨-, job, -, hjob', -⟩ := h.active id entry hentry
          rw [hjob] at hjob'
          cases hjob'
        rw [hk, if_pos rfl, hnone]
      · rw [if_neg hk]
    | some job =>
      rw [strictCount_perm (removeJob_perm hjob), strictCount_cons] at hmatched
      have hid := id_of_getJob hjob
      by_cases hk : k = id
      · rw [if_pos hk]
        have hiff := h.strict_iff hjob
        subst hk
        by_cases hactive : (r.directDownloadJobs.get k).isSome = true
        · rw [if_pos hactive, if_pos ⟨hiff.mpr hactive, hid⟩] at hmatched
          exact Nat.succ.inj hmatched
        · rw [if_neg hactive] at hmatched
          exact Nat.eq_zero_of_add_eq_zero_right hmatched
      · rw [if_neg hk]
        rwa [if_neg fun hboth => hk (hboth.2.symm.trans hid), Nat.add_zero] at hmatched
  few := hdrop.len.trans h.few
  pending := by
    have hpending := h.pending
    rw [hdrop.written, hdrop.accepted, hdrop.writeJobs]
    cases hjob : getJob id r.writeJobs with
    | none => rwa [removeJob_of_none hjob]
    | some job =>
      rw [totalPending_perm (removeJob_perm hjob), totalPending_cons] at hpending
      omega
  quota := by
    rw [hdrop.accepted]
    exact h.quota

/-- A changed job stays what it is; a strict one has counted `n` more bytes. -/
structure Grows (n : Nat) (job job' : TransferJob) : Prop where
  id : job'.id = job.id
  strict : job'.strictDirectTransfer = job.strictDirectTransfer
  fixed : job.strictDirectTransfer = true → job'.fixed = job.fixed
  finished : job.strictDirectTransfer = true → job'.finishedSize = job.finishedSize + n
  fits : job.strictDirectTransfer = true → job'.finishedSize ≤ job.totalSize

theorem Receives.congr {job' : TransferJob} (h : Receives H request entry job)
    (hfixed : job'.fixed = job.fixed) : Receives H request entry job' := by
  obtain ⟨hid, -, hsource, hfiles, hstrict, htotal⟩ := fixed_iff.mp hfixed
  exact ⟨h.manifest, hid.trans h.id, hstrict.trans h.strict, hsource.trans h.source,
    hfiles.trans h.files, htotal.trans h.total, h.entryTotal, h.directory⟩

theorem Inv.update (h : Inv H r) (id : Int) (f : TransferJob → TransferJob) (n : Nat) (fs : Fs)
    (hf : ∀ job, getJob id r.writeJobs = some job → Grows n job (f job))
    (hn : (r.directDownloadJobs.get id).isSome = false → n = 0) :
    Inv H { r with
      fs
      writeJobs := updateJob id f r.writeJobs
      written := r.written + if (getJob id r.writeJobs).isSome then n else 0 } where
  active k entry hentry := by
    obtain ⟨request, job, hrequest, hjob, hreceives, hle⟩ := h.active k entry hentry
    refine ⟨request, if k = id then f job else job, hrequest, ?_⟩
    rw [getJob_updateJob fun job hjob => (hf job hjob).id.trans (id_of_getJob hjob)]
    split_ifs with hk
    · subst hk
      have hgrows := hf job hjob
      have hfixed := hgrows.fixed hreceives.strict
      rw [hjob]
      refine ⟨rfl, hreceives.congr hfixed, ?_⟩
      rw [(fixed_iff.mp hfixed).2.2.2.2.2]
      exact hgrows.fits hreceives.strict
    · exact ⟨hjob, hreceives, hle⟩
  matched k := by
    rw [← h.matched k]
    cases hjob : getJob id r.writeJobs with
    | none => rw [updateJob_of_none hjob]
    | some job =>
      rw [strictCount_perm (updateJob_perm hjob), strictCount_perm (removeJob_perm hjob),
        strictCount_cons, strictCount_cons, (hf job hjob).id, (hf job hjob).strict]
  few := h.few
  pending := by
    have hpending := h.pending
    dsimp only
    cases hjob : getJob id r.writeJobs with
    | none =>
      rw [updateJob_of_none hjob]
      exact hpending
    | some job =>
      have hgrows := hf job hjob
      rw [totalPending_perm (removeJob_perm hjob), totalPending_cons] at hpending
      rw [totalPending_perm (updateJob_perm hjob), totalPending_cons,
        Option.isSome_some, if_pos rfl]
      unfold pendingBytes at hpending ⊢
      rw [hgrows.strict]
      by_cases hstrict : job.strictDirectTransfer = true
      · have htotal := (fixed_iff.mp (hgrows.fixed hstrict)).2.2.2.2.2
        have hfinished := hgrows.finished hstrict
        have hfits := hgrows.fits hstrict
        rw [if_pos hstrict] at hpending ⊢
        omega
      · have hzero : n = 0 := by
          refine hn (Bool.eq_false_iff.mpr fun hactive => hstrict ((h.strict_iff hjob).mpr hactive))
        rw [if_neg hstrict] at hpending ⊢
        omega
  quota := h.quota

/-! ## The events -/

/-- Only the jobs and the books count. -/
theorem Inv.congr (h : Inv H r) (hwrite : r'.writeJobs = r.writeJobs)
    (htable : r'.directDownloadJobs = r.directDownloadJobs)
    (haccepted : r'.directDownloadSessionAcceptedBytes = r.directDownloadSessionAcceptedBytes)
    (hmanifests : r'.manifests = r.manifests) (hwritten : r'.written = r.written) : Inv H r' where
  active := by
    rw [hwrite, htable, hmanifests]
    exact h.active
  matched := by
    rw [hwrite, htable]
    exact h.matched
  few := by
    rw [htable]
    exact h.few
  pending := by
    rw [hwrite, haccepted, hwritten]
    exact h.pending
  quota := by
    rw [haccepted]
    exact h.quota

/-- A job that is not strict comes behind the others. -/
theorem Inv.push (h : Inv H r) (hstrict : job.strictDirectTransfer = false) :
    Inv H { r with writeJobs := r.writeJobs ++ [job] } where
  active k entry hentry := by
    obtain ⟨request, job', hrequest, hjob, hrest⟩ := h.active k entry hentry
    refine ⟨request, job', hrequest, ?_, hrest⟩
    exact List.find?_append.trans (by rw [show List.find? _ r.writeJobs = some job' from hjob]; rfl)
  matched k := by
    have hnot : ¬ (job.strictDirectTransfer = true ∧ job.id = k) := by
      rintro ⟨htrue, -⟩
      rw [hstrict] at htrue
      cases htrue
    rw [← h.matched k, strictCount_concat, if_neg hnot, Nat.add_zero]
  few := h.few
  pending := by
    have hzero : pendingBytes job = 0 := by rw [pendingBytes, hstrict, if_neg Bool.false_ne_true]
    dsimp only
    rw [totalPending_concat, hzero, Nat.add_zero]
    exact h.pending
  quota := h.quota

/-- What ends a download takes its job and its entry. -/
theorem abandonDownload_drops (r : Remote) (id : Int) : Drops r id (r.abandonDownload H id) := by
  have hdrop : (r.dropWriteJob H id).writeJobs = removeJob id r.writeJobs ∧
      (r.dropWriteJob H id).directDownloadJobs = r.directDownloadJobs ∧
      (r.dropWriteJob H id).directDownloadSessionAcceptedBytes =
        r.directDownloadSessionAcceptedBytes ∧
      (r.dropWriteJob H id).manifests = r.manifests ∧
      (r.dropWriteJob H id).written = r.written := by
    unfold dropWriteJob
    cases hjob : getJob id r.writeJobs with
    | none => exact ⟨(removeJob_of_none hjob).symm, rfl, rfl, rfl, rfl⟩
    | some job => exact ⟨rfl, rfl, rfl, rfl, rfl⟩
  obtain ⟨hwrite, htable, haccepted, hmanifests, hwritten⟩ := hdrop
  unfold abandonDownload releaseDirectDownloadJob
  rw [htable]
  cases hentry : r.directDownloadJobs.get id with
  | none =>
    refine ⟨hwrite, fun k => ?_, by rw [htable], haccepted, hmanifests, hwritten⟩
    rw [htable]
    split_ifs with hk
    · rw [hk, hentry]
    · rfl
  | some entry =>
    exact ⟨hwrite, fun k => Table.get_remove, Table.len_remove_le, haccepted, hmanifests, hwritten⟩

theorem done_drops (enabled : Bool) : Drops r id (r.done H enabled id) := by
  unfold done
  dsimp only
  split
  · exact ⟨rfl, fun k => Table.get_remove, Table.len_remove_le, rfl, rfl, rfl⟩
  · exact ⟨rfl, fun k => Table.get_remove, Table.len_remove_le, rfl, rfl, rfl⟩
  · exact ⟨rfl, fun k => Table.get_remove, Table.len_remove_le, rfl, rfl, rfl⟩
  · exact ⟨rfl, fun k => Table.get_remove, Table.len_remove_le, rfl, rfl, rfl⟩

theorem Inv.abandonDownload (h : Inv H r) (id : Int) : Inv H (r.abandonDownload H id) :=
  h.drop id (abandonDownload_drops r id)

theorem Inv.cancelTransferJob (h : Inv H r) (id : Int) : Inv H (r.cancelTransferJob H id) :=
  (h.abandonDownload id).congr rfl rfl rfl rfl rfl

theorem Inv.error (h : Inv H r) (id : Int) : Inv H (r.error H id) := by
  unfold Remote.error
  split_ifs with hactive
  · exact h.abandonDownload id
  · refine h.drop id ⟨rfl, fun k => ?_, Nat.le_refl _, rfl, rfl, rfl⟩
    split_ifs with hk
    · rw [hk]
      exact Option.not_isSome_iff_eq_none.mp hactive
    · rfl

theorem Inv.cancel (h : Inv H r) (id : Int) : Inv H (r.cancel H id) := by
  unfold Remote.cancel
  split_ifs
  · exact h.abandonDownload id
  · exact h

theorem Inv.disconnect (h : Inv H r) : Inv H (r.disconnect H) := by
  unfold Remote.disconnect
  generalize (r.directDownloadJobs.entries.map fun e => e.1) = ids
  induction ids generalizing r with
  | nil => exact h
  | cons id ids ih => exact ih (h.abandonDownload id)

/-- A change that keeps what a job is and what it has counted. -/
theorem Inv.change (h : Inv H r) (hfixed : ∀ job, getJob id r.writeJobs = some job →
      (f job).fixed = job.fixed)
    (hfinished : ∀ job, getJob id r.writeJobs = some job → job.strictDirectTransfer = true →
      (f job).finishedSize = job.finishedSize) :
    Inv H { r with writeJobs := updateJob id f r.writeJobs } := by
  have hupdate := h.update id f 0 r.fs (fun job hjob => ?_) fun _ => rfl
  · refine hupdate.congr rfl rfl rfl rfl ?_
    dsimp only
    rw [ite_self, Nat.add_zero]
  · obtain ⟨hid, -, -, -, hstrict, -⟩ := fixed_iff.mp (hfixed job hjob)
    refine ⟨hid, hstrict, fun _ => hfixed job hjob, hfinished job hjob, fun htrue => ?_⟩
    rw [hfinished job hjob htrue]
    exact h.finished_le hjob htrue

theorem receiveDigest_fixed {fs : Fs} {resumable : Bool} {modified : ModifiedAt}
    {digest : FileTransferDigest} :
    (receiveDigest H job fs resumable modified digest).fixed = job.fixed := by
  unfold receiveDigest
  split
  · dsimp only
    split
    · exact confirm_fixed
    · split
      · exact confirm_fixed
      · rfl
    · exact confirm_fixed
    · rfl
  · rfl

theorem Inv.digest (h : Inv H r) (resumable : Bool) (modified : ModifiedAt)
    (digest : FileTransferDigest) : Inv H (r.digest H resumable modified digest) := by
  unfold Remote.digest
  split_ifs with hactive
  · exact h.abandonDownload digest.id
  · exact h.congr rfl rfl rfl rfl rfl
  · refine h.change (fun job _ => receiveDigest_fixed) fun job hjob hstrict => ?_
    exact absurd ((h.strict_iff hjob).mp hstrict) hactive

theorem Inv.confirmOverride (h : Inv H r) (id fileNum : Int)
    (needOverride remember isUpload : Bool) :
    Inv H (r.confirmOverride H id fileNum needOverride remember isUpload) := by
  unfold Remote.confirmOverride
  cases isUpload with
  | true => exact h.congr rfl rfl rfl rfl rfl
  | false =>
    refine h.change (fun job _ => ?_) fun job _ _ => ?_
    · rw [confirm_fixed]
      cases remember <;> rfl
    · rw [confirm_finishedSize (by cases needOverride <;> simp)]
      cases remember <;> rfl

theorem Inv.block (h : Inv H r) (enabled : Bool) (block : FileTransferBlock) :
    Inv H (r.block H enabled block) := by
  unfold Remote.block
  by_cases hrevoked : (r.directDownloadJobs.get block.id).isSome = true ∧ ¬ enabled = true
  · rw [if_pos hrevoked]
    exact h.abandonDownload block.id
  rw [if_neg hrevoked]
  split
  · exact h
  rename_i job hjob
  have hid : (job.write H.platform r.fs block).job.id = block.id :=
    (fixed_iff.mp write_fixed).1.trans (id_of_getJob hjob)
  dsimp only
  split
  · rename_i hok
    -- A block of a download is counted by its job and by the session.
    have hupdate := h.update block.id (fun _ => (job.write H.platform r.fs block).job)
      (if (r.directDownloadJobs.get block.id).isSome then storedBytes H job r.fs block else 0)
      (job.write H.platform r.fs block).fs (fun job' hjob' => ?_) fun hnone => ?_
    · refine hupdate.congr rfl rfl rfl rfl ?_
      dsimp only
      rw [hjob, Option.isSome_some, if_pos rfl]
    · cases hjob.symm.trans hjob'
      refine ⟨hid.trans (id_of_getJob hjob).symm, (fixed_iff.mp write_fixed).2.2.2.2.1,
        fun _ => write_fixed, fun hstrict => ?_, fun hstrict => (write_total hstrict hok).2⟩
      rw [if_pos ((h.strict_iff hjob).mp hstrict)]
      exact (write_total hstrict hok).1
    · rw [hnone, if_neg Bool.false_ne_true]
  · rename_i e hrefused
    have hnothing : storedBytes H job r.fs block = 0 := by
      rw [storedBytes, acceptedBlock_refused (by rw [hrefused]; nofun)]
      rfl
    have hdrop := abandonDownload_drops (H := H) { r with
      fs := (job.write H.platform r.fs block).fs
      writeJobs := updateJob block.id (fun _ => (job.write H.platform r.fs block).job) r.writeJobs
      written := r.written +
        if (r.directDownloadJobs.get block.id).isSome then storedBytes H job r.fs block else 0 }
      block.id
    refine h.drop block.id ⟨?_, hdrop.get, hdrop.len, hdrop.accepted, hdrop.manifests, ?_⟩
    · rw [hdrop.writeJobs]
      exact removeJob_updateJob fun _ _ => hid
    · rw [hdrop.written]
      dsimp only
      rw [hnothing, ite_self, Nat.add_zero]

/-- A list of files that a job with a destination may take. -/
def Listed (P : Platform) (fs : Fs) (destination : PathBuf) (files : List FileEntry) : Prop :=
  validateTransferFileNames P files = .ok () ∧
    ∀ file ∈ files, validateNoSymlinkComponents P fs destination file.name = .ok ()

theorem listed_of_setFiles {P : Platform} {fs : Fs} {destination : PathBuf}
    {files : List FileEntry} {job job' : TransferJob} (h : job.setFiles P fs files = .ok job')
    (hsource : job.dataSource = .filePath destination) : Listed P fs destination files := by
  have hgo : ∀ files : List FileEntry, setFiles.go P fs destination files = .ok () →
      ∀ file ∈ files, validateNoSymlinkComponents P fs destination file.name = .ok () := by
    intro files hgo
    induction files with
    | nil => simp
    | cons file files ih =>
      unfold setFiles.go at hgo
      split at hgo
      · cases hgo
      · rename_i hfile
        exact List.forall_mem_cons.mpr ⟨hfile, ih hgo⟩
  have hvalid := (setFiles_eq h).1
  refine ⟨hvalid, hgo files ?_⟩
  unfold setFiles at h
  rw [hsource, hvalid] at h
  dsimp only at h
  split at h
  · cases h
  · assumption

/-- A listing that does not change what a download receives: it is for no download, or it is
refused, or it says again what is known of one that has not been resumed. -/
def ListingHarmless (H : Host) (r : Remote) : RemoteEvent → Prop
  | .dir id windowsPeer entries => ∀ entry job, r.directDownloadJobs.get id = some entry →
      getJob id r.writeJobs = some job →
      Listed H.platform r.fs entry.destination (dirEntries H windowsPeer entries) →
      dirEntries H windowsPeer entries = job.files ∧ job.isResume = false
  | _ => True

theorem Inv.dir (h : Inv H r) {windowsPeer : Bool} {entries : List FileEntry}
    (hok : ListingHarmless H r (.dir id windowsPeer entries)) :
    Inv H (r.dir H id (dirEntries H windowsPeer entries)) := by
  unfold Remote.dir
  cases hjob : getJob id r.writeJobs with
  | none => exact h
  | some job =>
    dsimp only
    cases hset : job.setFiles H.platform r.fs (dirEntries H windowsPeer entries) with
    | error e => exact h.cancelTransferJob id
    | ok job' =>
      dsimp only
      obtain ⟨-, hjob'⟩ := setFiles_eq hset
      have hupdate := h.update id (fun _ => job'.setFinishedSizeOnResume) 0 r.fs
        (fun job₁ hjob₁ => ?_) fun _ => rfl
      · refine hupdate.congr rfl rfl rfl rfl ?_
        dsimp only
        rw [ite_self, Nat.add_zero]
      cases hjob.symm.trans hjob₁
      have hfinish : ∀ j : TransferJob, j.setFinishedSizeOnResume.fixed = j.fixed := by
        intro j
        unfold setFinishedSizeOnResume
        split_ifs <;> rfl
      obtain ⟨hid, -, -, -, hstrict, -⟩ := fixed_iff.mp (hfinish job')
      by_cases hdirect : job.strictDirectTransfer = true
      · -- The listing says again what the manifest has said.
        have hsame : job'.setFinishedSizeOnResume = job := by
          obtain ⟨entry, hentry⟩ := Option.isSome_iff_exists.mp ((h.strict_iff hjob).mp hdirect)
          obtain ⟨request, job₂, -, hjob₂, hreceives, -⟩ := h.active id entry hentry
          cases hjob.symm.trans hjob₂
          obtain ⟨hentries, hresume⟩ := hok entry job hentry hjob
            (listed_of_setFiles hset hreceives.source)
          obtain ⟨htotal, hmax, -⟩ := total_of_accepted hreceives.manifest
          have hsum : (job.files.map (·.size)).sum % 2 ^ 64 = job.totalSize := by
            rw [hreceives.files, htotal, hreceives.total, Nat.mod_eq_of_lt]
            exact hmax.trans_lt (by decide)
          rw [hentries, hsum] at hjob'
          have hjob₃ : job' = job := hjob'
          rw [hjob₃, setFinishedSizeOnResume, hresume]
          rfl
        rw [hsame]
        exact ⟨rfl, rfl, fun _ => rfl, fun _ => rfl, fun _ => h.finished_le hjob hdirect⟩
      · refine ⟨hid.trans ?_, hstrict.trans ?_, fun htrue => absurd htrue hdirect,
          fun htrue => absurd htrue hdirect, fun htrue => absurd htrue hdirect⟩
        · rw [hjob']
        · rw [hjob']

/-- The job and the entry of an accepted request. -/
theorem receives_of_accept {fs fs' : Fs}
    (h : acceptDirectDownload H fs request = (.ok (job, entry), fs')) :
    Receives H request entry job ∧ job.finishedSize = 0 := by
  unfold acceptDirectDownload at h
  split at h
  · cases h
  rename_i hmanifest
  split at h
  · cases h
  split at h
  · cases h
  split at h
  · cases h
  rename_i hjob
  cases h
  obtain ⟨-, rfl⟩ := newDirectWrite_eq hjob
  obtain ⟨htotal, hmax, -⟩ := total_of_accepted hmanifest
  refine ⟨⟨hmanifest, rfl, rfl, rfl, rfl, ?_, rfl, rfl⟩, rfl⟩
  show (request.files.map (·.size)).sum % 2 ^ 64 = request.totalSize
  rw [htotal, Nat.mod_eq_of_lt]
  exact hmax.trans_lt (by decide)

/-- A request is rejected, which leaves the jobs, or it has a new id and fits into what the
session may receive. -/
theorem handleDirectDownloadRequest_cases {enabled : Bool} {res : Option String × Remote}
    (h : r.handleDirectDownloadRequest H enabled request = res) :
    (∃ e fs, res = (some e, { r with fs })) ∨
      ∃ job entry fs', acceptDirectDownload H r.fs request = (.ok (job, entry), fs') ∧
        getJob request.id r.writeJobs = none ∧ r.directDownloadJobs.get request.id = none ∧
        r.directDownloadJobs.len < directDownloadMaxConcurrent ∧
        r.directDownloadSessionAcceptedBytes + request.totalSize ≤ directTransferMaxTotalBytes ∧
        res = (none, { r with
          fs := fs'
          writeJobs := r.writeJobs ++ [job]
          directDownloadSessionAcceptedBytes :=
            r.directDownloadSessionAcceptedBytes + request.totalSize
          directDownloadJobs := r.directDownloadJobs.insert request.id entry
          manifests := Function.update r.manifests request.id (some request) }) := by
  subst h
  unfold handleDirectDownloadRequest
  by_cases hwindows : ¬ H.platform.windows = true
  · exact .inl ⟨_, r.fs, if_pos hwindows⟩
  rw [if_neg hwindows]
  by_cases hsign : 0 ≤ request.id
  · exact .inl ⟨_, r.fs, if_pos hsign⟩
  rw [if_neg hsign]
  by_cases henabled : ¬ enabled = true
  · exact .inl ⟨_, r.fs, if_pos henabled⟩
  rw [if_neg henabled]
  by_cases hdestination : request.destination ≠ some .downloads
  · exact .inl ⟨_, r.fs, if_pos hdestination⟩
  rw [if_neg hdestination]
  split
  · exact .inl ⟨_, r.fs, rfl⟩
  rename_i hfresh
  split
  · exact .inl ⟨_, r.fs, rfl⟩
  rename_i hmany
  split
  · exact .inl ⟨_, r.fs, rfl⟩
  split
  · exact .inl ⟨_, r.fs, rfl⟩
  rename_i hsession
  obtain ⟨-, hwrite, hentry⟩ := not_or.mp hfresh |>.imp_right not_or.mp
  rcases haccept : acceptDirectDownload H r.fs request with ⟨e | ⟨job, entry⟩, fs'⟩
  · exact .inl ⟨e, fs', rfl⟩
  refine .inr ⟨job, entry, fs', rfl, ?_, Option.not_isSome_iff_eq_none.mp hentry, by omega,
    by omega, rfl⟩
  refine List.find?_eq_none.mpr fun j hj hid => hwrite ?_
  exact List.any_eq_true.mpr ⟨j, hj, hid⟩

theorem Inv.directReceive (h : Inv H r) (enabled : Bool)
    (request : DirectFileTransferReceiveRequest) :
    Inv H (r.handleDirectDownloadRequest H enabled request).2 := by
  generalize hres : r.handleDirectDownloadRequest H enabled request = res
  obtain ⟨e, fs, rfl⟩ | ⟨job, entry, fs', haccept, hnone, hentry, hmany, hsession, rfl⟩ :=
    handleDirectDownloadRequest_cases hres
  · exact h.congr rfl rfl rfl rfl rfl
  obtain ⟨hreceives, hfinished⟩ := receives_of_accept haccept
  constructor
  · intro k entry' hentry'
    dsimp only at hentry' ⊢
    rw [Table.get_insert] at hentry'
    split_ifs at hentry' with hk
    · cases hentry'
      refine ⟨request, job, ?_, ?_, hreceives, by rw [hfinished]; exact Nat.zero_le _⟩
      · rw [hk, Function.update_self]
      · rw [hk]
        refine List.find?_append.trans ?_
        rw [show List.find? _ r.writeJobs = none from hnone, Option.none_or, List.find?_singleton,
          if_pos (by simpa using hreceives.id)]
    · obtain ⟨request', job', hrequest', hjob', hrest⟩ := h.active k entry' hentry'
      refine ⟨request', job', ?_, ?_, hrest⟩
      · rw [Function.update_of_ne hk, hrequest']
      · refine List.find?_append.trans ?_
        rw [show List.find? _ r.writeJobs = some job' from hjob']
        rfl
  · intro k
    dsimp only
    rw [strictCount_concat, h.matched, Table.get_insert]
    by_cases hk : k = request.id
    · have hnew : job.strictDirectTransfer = true ∧ job.id = request.id :=
        ⟨hreceives.strict, hreceives.id⟩
      rw [if_pos hk, hk, hentry, if_pos hnew]
      rfl
    · have hother : ¬ (job.strictDirectTransfer = true ∧ job.id = k) := fun hboth =>
        hk (hboth.2.symm.trans hreceives.id)
      rw [if_neg hk, if_neg hother, Nat.add_zero]
  · dsimp only
    rw [Table.len_insert_of_none hentry]
    omega
  · have hpending := h.pending
    dsimp only
    rw [totalPending_concat, pendingBytes, if_pos hreceives.strict, hfinished, hreceives.total]
    omega
  · dsimp only
    omega

/-- Every event keeps the invariant, but for listings that change what a download receives. -/
theorem Inv.step (h : Inv H r) {e : RemoteEvent} (hok : ListingHarmless H r e) :
    Inv H (r.step H e) := by
  cases e with
  | directReceive enabled request => exact h.directReceive enabled request
  | dir id windowsPeer entries => exact h.dir hok
  | digest resumable modified digest => exact h.digest resumable modified digest
  | block enabled block => exact h.block enabled block
  | done enabled id => exact h.drop id (done_drops enabled)
  | error id => exact h.error id
  | cancel id => exact h.cancel id
  | sendFiles => exact h.push rfl
  | addJob => exact h.push rfl
  | resumeJob id => exact h.change (fun _ _ => rfl) fun _ _ _ => rfl
  | confirmOverride id fileNum needOverride remember isUpload =>
    exact h.confirmOverride id fileNum needOverride remember isUpload
  | cancelJob id => exact h.cancelTransferJob id
  | reading e => exact h.congr rfl rfl rfl rfl rfl
  | disconnect => exact h.disconnect

/-- As long as no listing changes what a download receives, every active download has exactly
one strict job, with the files of its manifest, there are no more than four, and no more bytes
are stored than a session may receive. -/
theorem downloads_sound (fs : Fs) {es : List RemoteEvent}
    (hes : Allowed (step H) (ListingHarmless H) { fs } es) :
    ∀ pre, pre <+: es → DirectSound H (run (step H) { fs } pre) := by
  rintro pre ⟨rest, rfl⟩
  have hpre := (allowed_append.mp hes).1
  exact (run_keeps (fun r e hr hok => hr.step hok) (inv_init fs) hpre).sound

/-- A push, a listing for another transfer and the first block. -/
theorem downloads_sound_sample :
    DirectSound downloadHost (run (step downloadHost) { fs := downloadsWith "b" }
      [.directReceive true (pushOf "a"), .dir 5 true [fileNamed "x" 7],
        .block true ⟨-1, 0, [5], false⟩]) :=
  downloads_sound (downloadsWith "b")
    (show Allowed (step downloadHost) (ListingHarmless downloadHost) _
      [.directReceive true (pushOf "a"), .dir 5 true [fileNamed "x" 7],
        .block true ⟨-1, 0, [5], false⟩] from
      ⟨trivial, fun _ _ hactive => absurd (Option.isSome_of_mem hactive) (by decide), trivial,
        trivial⟩) _ List.prefix_rfl

/-- A listing for an active download replaces the files it was accepted with. -/
theorem listing_replaces_manifest :
    ¬ DirectSound downloadHost (run (step downloadHost) { fs := downloadsWith "b" }
      [.directReceive true (pushOf "a"), .dir (-1) true [fileNamed "x" 7]]) := by
  intro hsound
  obtain ⟨entry, hentry⟩ : ∃ entry, (run (step downloadHost) { fs := downloadsWith "b" }
      [.directReceive true (pushOf "a"),
        .dir (-1) true [fileNamed "x" 7]]).directDownloadJobs.get (-1) = some entry := ⟨_, rfl⟩
  obtain ⟨job, hjob, hstrict, hfiles⟩ : ∃ job, getJob (-1) (run (step downloadHost)
      { fs := downloadsWith "b" } [.directReceive true (pushOf "a"),
        .dir (-1) true [fileNamed "x" 7]]).writeJobs = some job ∧
      job.strictDirectTransfer = true ∧ job.files = [fileNamed "x" 7] := ⟨_, rfl, rfl, rfl⟩
  obtain ⟨request, hrequest, hkept⟩ := hsound.kept (-1) entry hentry
  have hpush : request = pushOf "a" := (Option.some.inj hrequest).symm
  have hsame := (hkept job (mem_of_getJob hjob) (id_of_getJob hjob) hstrict).files
  rw [hfiles, hpush] at hsame
  exact absurd hsame (by decide)

end Remote

end MDesk
