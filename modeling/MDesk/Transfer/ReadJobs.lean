import MDesk.Core.Run
import MDesk.Direct.Source

/-!
# The loop over the reading jobs

`handle_read_jobs` opens the current file of every job, reads the first job, and takes
it off the list when it counts as completed. With overwrite detection that is decided
by two flags which an opening error resets as well, so a job can be taken off in front
of its last file.
-/

namespace MDesk

open MDesk.Core

namespace TransferJob

variable (P : Platform)

/-- `new_read` of a directory or file, with the files `get_recursive_files` found. -/
def newRead (id : Int) (remote : String) (path : PathBuf) (fileNum : Int)
    (showHidden isRemote enableOverwriteDetection : Bool) (files : List FileEntry) : TransferJob :=
  { id, type := .generic, remote, dataSource := .filePath path, fileNum, showHidden, isRemote,
    files, totalSize := (files.map (·.size)).sum % 2 ^ 64, enableOverwriteDetection }

/-- The part of `init_jobs` that concerns one job. -/
def initJob (fs : Fs) (modified : Modified) (job : TransferJob) :
    List FileResponse × TransferJob :=
  if job.isLastJob then ([], job)
  else
    match job.initDataStream P fs modified with
    | (.error e, job) => ([.error job.id e job.fileNum], job)
    | (.ok sent, job) => (sent, job)

/-- `ReadJobOutcome`. -/
structure ReadJobOutcome where
  id : Int
  succeeded : Bool
  deriving DecidableEq, Repr

/-- What a round over the jobs leaves, sends and reports. The finished jobs are kept as
they were when they were reported. -/
structure ReadRound where
  jobs : List TransferJob
  sent : List FileResponse := []
  finished : List TransferJob := []
  deriving DecidableEq, Repr

/-- The outcomes a round reports. -/
def ReadRound.outcomes (round : ReadRound) : List ReadJobOutcome :=
  round.finished.map fun job => { id := job.id, succeeded := job.auditError.isNone }

/-- The read of the job at the front. -/
def readJob (fs : Fs) (job : TransferJob) : ReadRound :=
  match job.read P fs with
  | (.error e, job) => { jobs := [job], sent := [.error job.id e job.fileNum] }
  | (.ok (some block), job) => { jobs := [job], sent := [.block block] }
  | (.ok none, job) =>
    if job.jobCompleted then
      { jobs := [job]
        sent := [match job.jobError with
          | some e => .error job.id e job.fileNum
          | none => .done job.id job.fileNum]
        finished := [job] }
    else { jobs := [job] }

/-- The loop of `handle_read_jobs`: it ends with the first job that is not a last job. -/
def readFront (fs : Fs) : List TransferJob → ReadRound
  | [] => { jobs := [] }
  | job :: jobs =>
    if job.isLastJob then
      let round := readFront fs jobs
      { round with jobs := job :: round.jobs }
    else
      let round := job.readJob P fs
      { round with jobs := round.jobs ++ jobs }

/-- `remove_job`. -/
def removeJob (id : Int) (jobs : List TransferJob) : List TransferJob :=
  jobs.eraseP fun job => job.id = id

/-- `handle_read_jobs` over a stream that accepts every message. -/
def handleReadJobs (fs : Fs) (modified : Modified) (jobs : List TransferJob) : ReadRound :=
  let opened := jobs.map (initJob P fs modified)
  let round := readFront P fs (opened.map Prod.snd)
  { jobs := round.finished.foldl (fun jobs job => removeJob job.id jobs) round.jobs
    sent := opened.flatMap Prod.fst ++ round.sent
    finished := round.finished }

/-- Change the first job with an id, as `get_job` gives it. -/
def updateJob (id : Int) (f : TransferJob → TransferJob) : List TransferJob → List TransferJob
  | [] => []
  | job :: jobs => if job.id = id then f job :: jobs else job :: updateJob id f jobs

/-- The reading jobs of a connection, and the ones reported as finished so far. -/
structure ReadState where
  jobs : List TransferJob := []
  finished : List TransferJob := []
  deriving DecidableEq, Repr

/-- What happens to the reading jobs: a job starts, possibly as a last job, or a direct
one; a last job is resumed; a round is made, over whatever the disk shows then; the peer
confirms or skips a file; a job is cancelled. -/
inductive ReadEvent where
  | start (id : Int) (remote : String) (path : PathBuf) (fileNum : Int)
      (showHidden isRemote enableOverwriteDetection isLastJob : Bool) (files : List FileEntry)
  | startDirect (id : Int) (source : PathBuf) (manifest : DirectTransferManifest)
  | resume (id : Int)
  | round (fs : Fs) (modified : Modified)
  | confirm (fs : Fs) (r : FileTransferSendConfirmRequest)
  | cancel (id : Int)

/-- One event. -/
def readStep (s : ReadState) : ReadEvent → ReadState
  | .start id remote path fileNum showHidden isRemote detection isLastJob files =>
    { s with jobs := s.jobs ++ [{ newRead id remote path fileNum showHidden isRemote detection
        files with isLastJob }] }
  | .startDirect id source manifest =>
    match newDirectRead P id source manifest with
    | .error _ => s
    | .ok job => { s with jobs := s.jobs ++ [job] }
  | .resume id =>
    { s with jobs := updateJob id (fun job => { job with
        isLastJob := false, isResume := true }.setFinishedSizeOnResume) s.jobs }
  | .round fs modified =>
    let round := handleReadJobs P fs modified s.jobs
    { jobs := round.jobs, finished := s.finished ++ round.finished }
  | .confirm fs r => { s with jobs := updateJob r.id (fun job => job.confirm P fs r) s.jobs }
  | .cancel id => { s with jobs := removeJob id s.jobs }

/-- What holds of every reading job. -/
structure ReadInv (job : TransferJob) : Prop where
  type : job.type = .generic
  source : ∃ base, job.dataSource = .filePath base
  direct : job.strictDirectTransfer = true → job.enableOverwriteDetection = false
  count : job.files.length < 2 ^ 31
  fileNum : 0 ≤ job.fileNum ∧ job.fileNum < 2 ^ 31

/-- The fields a reading job keeps. -/
structure SameJob (job job' : TransferJob) : Prop where
  type : job'.type = job.type
  source : job'.dataSource = job.dataSource
  strict : job'.strictDirectTransfer = job.strictDirectTransfer
  detection : job'.enableOverwriteDetection = job.enableOverwriteDetection
  files : job'.files = job.files
  isLastJob : job'.isLastJob = job.isLastJob

variable {P} {job job' : TransferJob} {fs : Fs} {modified : Modified}

theorem ReadInv.of_same (h : ReadInv job) (hsame : SameJob job job')
    (hnum : 0 ≤ job'.fileNum ∧ job'.fileNum < 2 ^ 31) : ReadInv job' where
  type := hsame.type.trans h.type
  source := hsame.source ▸ h.source
  direct hs := hsame.detection.trans (h.direct (hsame.strict ▸ hs))
  count := hsame.files ▸ h.count
  fileNum := hnum

/-- In range the index of the current file is its number. -/
theorem ReadInv.index (h : ReadInv job) : asUsize job.fileNum = job.fileNum.toNat := by
  have hnum := h.fileNum
  unfold asUsize
  omega

theorem ReadInv.exhausted (h : ReadInv job) (hnone : job.files[asUsize job.fileNum]? = none) :
    (job.files.length : Int) ≤ job.fileNum := by
  rw [h.index, List.getElem?_eq_none_iff] at hnone
  have hnum := h.fileNum.1
  omega

/-- Behind a file there is room for the next number. -/
theorem ReadInv.next (h : ReadInv job) {entry : FileEntry}
    (hentry : job.files[asUsize job.fileNum]? = some entry) :
    wrapI32 (job.fileNum + 1) = job.fileNum + 1 ∧ job.fileNum + 1 ≤ job.files.length := by
  rw [h.index] at hentry
  have hlt := (List.getElem?_eq_some_iff.mp hentry).1
  have hnum := h.fileNum
  have hcount := h.count
  unfold wrapI32
  omega

variable (P) in
/-- What opening the current file of a job returns. -/
inductive OpenResult (fs : Fs) (base : PathBuf) (job : TransferJob) :
    Except String Bool × TransferJob → Prop where
  | done (hnone : job.files[asUsize job.fileNum]? = none) :
      OpenResult fs base job (.ok true, { job with dataStream := none })
  | stay {entry : FileEntry} (hentry : job.files[asUsize job.fileNum]? = some entry)
      (hs : job.dataStream.isSome) : OpenResult fs base job (.ok false, job)
  | abandoned {entry : FileEntry} (e : String)
      (hentry : job.files[asUsize job.fileNum]? = some entry)
      (hstrict : job.strictDirectTransfer = true) :
      OpenResult fs base job (.error e, job.abandoned e)
  | failed {entry : FileEntry} (e : FsError) (path : PathBuf)
      (hentry : job.files[asUsize job.fileNum]? = some entry) (hs : job.dataStream = none)
      (hpath : job.strictDirectTransfer = false → path = P.join base entry.name)
      (hopen : openFileForRead P fs path = .error e) :
      OpenResult fs base job
        (.error e.message, { job.nextFile with transferError := some e.message })
  | opened {entry : FileEntry} (path : PathBuf)
      (hentry : job.files[asUsize job.fileNum]? = some entry) (hs : job.dataStream = none)
      (hpath : job.strictDirectTransfer = false → path = P.join base entry.name)
      (hopen : openFileForRead P fs path = .ok ()) :
      OpenResult fs base job (.ok false, { job with
        dataStream := some (.fileStream path 0 .read)
        fileConfirmed := false
        fileIsWaiting := false })

theorem openDataStream_result {base : PathBuf} (hsource : job.dataSource = .filePath base) :
    OpenResult P fs base job (job.openDataStream P fs) := by
  unfold openDataStream
  split
  · rename_i base' hbase
    obtain rfl : base' = base := by
      rw [hsource] at hbase
      exact (DataSource.filePath.inj hbase).symm
    split
    · exact .done ‹_›
    · rename_i entry hentry
      split_ifs with hs
      · exact .stay hentry hs
      · rw [Option.not_isSome_iff_eq_none] at hs
        split
        · rename_i e hvalid
          unfold sourceFor at hvalid
          split_ifs at hvalid with hstrict
          exact .abandoned e hentry hstrict
        · rename_i path hvalid
          have hpath : job.strictDirectTransfer = false → path = P.join base' entry.name := by
            intro hf
            rw [sourceFor, hf] at hvalid
            exact (Except.ok.inj hvalid).symm
          split
          · exact .failed _ path hentry hs hpath ‹_›
          · rename_i hopen
            split
            · rename_i e hcheck
              unfold validateOpened at hcheck
              split_ifs at hcheck with hstrict
              exact .abandoned e hentry hstrict
            · exact .opened path hentry hs hpath hopen
  · rename_i contents hmem
    rw [hsource] at hmem
    cases hmem

variable (P) in
/-- The current file of a job with overwrite detection can be opened and has a digest, or
it is the last one and cannot be opened. -/
def fileServed (fs : Fs) (modified : Modified) (job : TransferJob) : Bool :=
  !job.enableOverwriteDetection ||
    match job.files[asUsize job.fileNum]?, job.dataSource, job.dataStream with
    | none, _, _ => true
    | some entry, .filePath base, none =>
      match openFileForRead P fs (P.join base entry.name) with
      | .ok () => (modified (P.join base entry.name)).isSome
      | .error _ => job.fileNum + 1 = job.files.length
    | _, _, _ =>
      job.fileConfirmed || job.fileIsWaiting || (job.getCurrentDigest fs modified).isOk

/-- The job has no file left, or the one it is at waits for the peer or may be read. -/
def Opened (job : TransferJob) : Prop :=
  (job.files.length : Int) ≤ job.fileNum ∨
    (job.enableOverwriteDetection = true → job.fileConfirmed = true ∨ job.fileIsWaiting = true)

/-- A digest is there for an opened file with a modification time. -/
theorem getCurrentDigest_ok {path : PathBuf} {pos : Nat} {mode : OpenMode}
    (hs : job.dataStream = some (.fileStream path pos mode))
    (hopen : openFileForRead P fs path = .ok ()) (hmod : (modified path).isSome) :
    (job.getCurrentDigest fs modified).isOk = true := by
  obtain ⟨seconds, hseconds⟩ := Option.isSome_iff_exists.mp hmod
  unfold openFileForRead at hopen
  unfold getCurrentDigest
  rw [hs]
  dsimp only
  split at hopen
  · cases hopen
  · rename_i hmeta
    rw [hmeta, hseconds]
    rfl
  · rename_i hmeta
    rw [hmeta, hseconds]
    rfl

/-- The digest part of a round. -/
theorem initJob_open (hlast : job.isLastJob = false)
    (hopen : job.openDataStream P fs = (.ok false, job')) (htype : job'.type = .generic) :
    SameJob job' (initJob P fs modified job).2 ∧
      (initJob P fs modified job).2.fileNum = job'.fileNum ∧
      ((job'.enableOverwriteDetection = true → job'.fileConfirmed = true ∨
          job'.fileIsWaiting = true ∨ (job'.getCurrentDigest fs modified).isOk = true) →
        Opened (initJob P fs modified job).2) := by
  by_cases hask : job'.type = .generic ∧ job'.enableOverwriteDetection = true ∧
      ¬ job'.fileConfirmed = true ∧ ¬ job'.fileIsWaiting = true
  · cases hdigest : job'.getCurrentDigest fs modified with
    | error e =>
      have hinit : initJob P fs modified job = ([.error job'.id e job'.fileNum], job') := by
        simp only [initJob, hlast, initDataStream, hopen, Bool.false_eq_true, if_false, if_pos hask,
          hdigest]
      rw [hinit]
      refine ⟨⟨rfl, rfl, rfl, rfl, rfl, rfl⟩, rfl, fun hserved => ?_⟩
      rcases hserved hask.2.1 with hconf | hwait | hok
      · exact absurd hconf hask.2.2.1
      · exact absurd hwait hask.2.2.2
      · cases hok
    | ok digest =>
      have hinit : (initJob P fs modified job).2 = { job' with fileIsWaiting := true } := by
        simp only [initJob, hlast, initDataStream, hopen, Bool.false_eq_true, if_false, if_pos hask,
          hdigest]
      rw [hinit]
      exact ⟨⟨rfl, rfl, rfl, rfl, rfl, rfl⟩, rfl, fun _ => .inr fun _ => .inr rfl⟩
  · have hinit : initJob P fs modified job = ([], job') := by
      simp only [initJob, hlast, initDataStream, hopen, Bool.false_eq_true, if_false, if_neg hask]
    rw [hinit]
    refine ⟨⟨rfl, rfl, rfl, rfl, rfl, rfl⟩, rfl, fun _ => .inr fun hdet => ?_⟩
    by_contra hnot
    rw [not_or] at hnot
    exact hask ⟨htype, hdet, hnot⟩

/-- The opening part of a round keeps a reading job one, and opens a job that is served. -/
theorem initJob_spec (h : ReadInv job) (hlast : job.isLastJob = false) :
    SameJob job (initJob P fs modified job).2 ∧ ReadInv (initJob P fs modified job).2 ∧
      (fileServed P fs modified job → Opened (initJob P fs modified job).2) := by
  obtain ⟨base, hsource⟩ := h.source
  have hresult : OpenResult P fs base job (job.openDataStream P fs) := openDataStream_result hsource
  have hsame : SameJob job job := ⟨rfl, rfl, rfl, rfl, rfl, rfl⟩
  obtain ⟨r, hr⟩ : ∃ r, job.openDataStream P fs = r := ⟨_, rfl⟩
  rw [hr] at hresult
  cases hresult with
  | done hnone =>
    have hinit : initJob P fs modified job = ([], { job with dataStream := none }) := by
      simp only [initJob, hlast, initDataStream, hr, Bool.false_eq_true, if_false]
    rw [hinit]
    exact ⟨⟨rfl, rfl, rfl, rfl, rfl, rfl⟩, h.of_same ⟨rfl, rfl, rfl, rfl, rfl, rfl⟩ h.fileNum,
      fun _ => .inl (h.exhausted hnone)⟩
  | stay hentry hs =>
    obtain ⟨hkeep, hnum, hopened⟩ := initJob_open hlast hr h.type
    refine ⟨hkeep, h.of_same hkeep (hnum ▸ h.fileNum), fun hserved => hopened fun hdet => ?_⟩
    obtain ⟨stream, hstream⟩ := Option.isSome_iff_exists.mp hs
    rw [fileServed, hdet, hentry, hsource, hstream] at hserved
    simpa only [Bool.not_true, Bool.false_or, Bool.or_eq_true, or_assoc] using hserved
  | abandoned e hentry hstrict =>
    have hinit : initJob P fs modified job =
        ([.error job.id e (wrapI32 job.files.length)], job.abandoned e) := by
      simp only [initJob, hlast, initDataStream, hr, Bool.false_eq_true, if_false, abandoned]
    have hkeep : SameJob job (job.abandoned e) := by constructor <;> rw [abandoned]
    have hnum : (job.abandoned e).fileNum = job.files.length := wrapI32_natCast h.count
    have hcount := h.count
    rw [hinit]
    refine ⟨hkeep, h.of_same hkeep ?_, fun _ => .inl ?_⟩
    · rw [hnum]
      omega
    · rw [hnum, hkeep.files]
  | failed e path hentry hs hpath hopen =>
    have hinit : (initJob P fs modified job).2 =
        { job.nextFile with transferError := some e.message } := by
      simp only [initJob, hlast, initDataStream, hr, Bool.false_eq_true, if_false]
    obtain ⟨hnum, hle⟩ := h.next hentry
    have hcount := h.count
    have hpos := h.fileNum
    rw [hinit]
    refine ⟨⟨rfl, rfl, rfl, rfl, rfl, rfl⟩, h.of_same ⟨rfl, rfl, rfl, rfl, rfl, rfl⟩ ?_,
      fun hserved => ?_⟩
    · show 0 ≤ wrapI32 (job.fileNum + 1) ∧ wrapI32 (job.fileNum + 1) < 2 ^ 31
      omega
    · by_cases hdet : job.enableOverwriteDetection = true
      · have hstrict : job.strictDirectTransfer = false := by
          by_contra hstrict
          rw [Bool.not_eq_false] at hstrict
          rw [h.direct hstrict] at hdet
          cases hdet
        simp only [fileServed, hdet, hentry, hsource, hs, ← hpath hstrict, hopen, Bool.not_true,
          Bool.false_or, decide_eq_true_eq] at hserved
        have hafter : job.nextFile.fileNum = job.fileNum + 1 := hnum
        refine .inl ?_
        show (job.files.length : Int) ≤ job.nextFile.fileNum
        rw [hafter, hserved]
      · exact .inr fun hdet' => absurd hdet' hdet
  | opened path hentry hs hpath hopen =>
    obtain ⟨hkeep, hnum, hopened⟩ := initJob_open hlast hr h.type
    have hkeep' : SameJob job (initJob P fs modified job).2 :=
      ⟨hkeep.type, hkeep.source, hkeep.strict, hkeep.detection, hkeep.files, hkeep.isLastJob⟩
    refine ⟨hkeep', h.of_same hkeep' (hnum ▸ h.fileNum), fun hserved => hopened fun hdet => ?_⟩
    have hstrict : job.strictDirectTransfer = false := by
      by_contra hstrict
      rw [Bool.not_eq_false] at hstrict
      have hnot : job.enableOverwriteDetection = true := hdet
      rw [h.direct hstrict] at hnot
      cases hnot
    have hask : job.enableOverwriteDetection = true := hdet
    simp only [fileServed, hask, hentry, hsource, hs, ← hpath hstrict, hopen, Bool.not_true,
      Bool.false_or] at hserved
    exact .inr (.inr (getCurrentDigest_ok rfl hopen hserved))

/-- A round opens every job that is not a last job. -/
theorem ReadInv.afterInit (P : Platform) (fs : Fs) (modified : Modified) (h : ReadInv job) :
    SameJob job (initJob P fs modified job).2 ∧ ReadInv (initJob P fs modified job).2 := by
  by_cases hlast : job.isLastJob = true
  · rw [initJob, if_pos hlast]
    exact ⟨⟨rfl, rfl, rfl, rfl, rfl, rfl⟩, h⟩
  · exact and_assoc.mpr (initJob_spec h (eq_false_of_ne_true hlast)) |>.1

/-- A read returns nothing where no file is left, or where the file waits to be confirmed. -/
theorem ReadInv.afterRead (P : Platform) (fs : Fs) (h : ReadInv job) :
    SameJob job (job.read P fs).2 ∧
    ReadInv (job.read P fs).2 ∧ ((job.read P fs).1 = .ok none →
      ((job.read P fs).2.files.length : Int) ≤ (job.read P fs).2.fileNum ∨
        (job.read P fs).2 = job ∧ job.enableOverwriteDetection = true ∧
          job.fileConfirmed = false) := by
  obtain ⟨base, hsource⟩ := h.source
  have hself : SameJob job job := ⟨rfl, rfl, rfl, rfl, rfl, rfl⟩
  have hpath : job.dataSource.isFilePath = true := by rw [hsource]; rfl
  unfold read
  split_ifs with hwait
  · exact ⟨hself, h, fun _ => .inr ⟨rfl, hwait.2.1, eq_false_of_ne_true hwait.2.2⟩⟩
  · split
    · rename_i hname
      have hnone : job.files[asUsize job.fileNum]? = none := by
        unfold readName at hname
        rw [hsource] at hname
        dsimp only at hname
        split at hname
        · assumption
        · cases hname
      exact ⟨⟨rfl, rfl, rfl, rfl, rfl, rfl⟩, h.of_same ⟨rfl, rfl, rfl, rfl, rfl, rfl⟩ h.fileNum,
        fun _ => .inl (h.exhausted hnone)⟩
    · rename_i name hname
      obtain ⟨entry, hentry⟩ : ∃ entry, job.files[asUsize job.fileNum]? = some entry := by
        unfold readName at hname
        rw [hsource] at hname
        dsimp only at hname
        split at hname
        · cases hname
        · exact ⟨_, ‹_›⟩
      obtain ⟨hwrap, hle⟩ := h.next hentry
      have hnext : 0 ≤ job.nextFile.fileNum ∧ job.nextFile.fileNum < 2 ^ 31 := by
        have hnum : job.nextFile.fileNum = job.fileNum + 1 := hwrap
        have hpos := h.fileNum
        have hcount := h.count
        rw [hnum]
        omega
      split
      · exact ⟨hself, h, fun hnone => by cases hnone⟩
      · split
        · refine ⟨⟨rfl, rfl, rfl, rfl, rfl, rfl⟩,
            h.of_same ⟨rfl, rfl, rfl, rfl, rfl, rfl⟩ hnext, fun hnone => by cases hnone⟩
        · refine ⟨⟨rfl, rfl, rfl, rfl, rfl, rfl⟩,
            h.of_same ⟨rfl, rfl, rfl, rfl, rfl, rfl⟩ hnext, fun hnone => by cases hnone⟩
        · refine ⟨⟨rfl, rfl, rfl, rfl, rfl, rfl⟩,
            h.of_same ⟨rfl, rfl, rfl, rfl, rfl, rfl⟩ h.fileNum, fun hnone => by cases hnone⟩

/-- The job at the front is reported as finished only when it has no file left. -/
theorem ReadInv.afterReadJob (P : Platform) (fs : Fs) (h : ReadInv job) (hopen : Opened job) :
    (∀ job' ∈ (job.readJob P fs).jobs, ReadInv job') ∧
      ∀ job' ∈ (job.readJob P fs).finished, (job'.files.length : Int) ≤ job'.fileNum := by
  obtain ⟨-, hinv, hnone⟩ := h.afterRead P fs
  unfold readJob
  split
  · rename_i e after hread
    rw [hread] at hinv
    exact ⟨fun job' hmem => by rwa [List.mem_singleton.mp hmem], fun job' hmem => by cases hmem⟩
  · rename_i block after hread
    rw [hread] at hinv
    exact ⟨fun job' hmem => by rwa [List.mem_singleton.mp hmem], fun job' hmem => by cases hmem⟩
  · rename_i after hread
    rw [hread] at hinv hnone
    split_ifs with hdone
    · refine ⟨fun job' hmem => by rwa [List.mem_singleton.mp hmem], fun job' hmem => ?_⟩
      rw [List.mem_singleton.mp hmem]
      rcases hnone rfl with hle | ⟨hsame, hdet, hconf⟩
      · exact hle
      · have hafter : after = job := hsame
        subst hafter
        rcases hopen with hle | hwait
        · exact hle
        · -- the flags that let the job count as completed are the ones that opening it sets
          rw [jobCompleted, hdet, hconf] at hdone
          rcases hwait hdet with hc | hw
          · rw [hc] at hconf
            cases hconf
          · rw [hw] at hdone
            cases hdone
    · exact ⟨fun job' hmem => by rwa [List.mem_singleton.mp hmem], fun job' hmem => by cases hmem⟩

/-- The loop reads the first job that is not a last job. -/
theorem readFront_spec (P : Platform) (fs : Fs) {jobs : List TransferJob}
    (h : ∀ job ∈ jobs, ReadInv job)
    (hopen : ∀ job, jobs.find? (fun job => !job.isLastJob) = some job → Opened job) :
    (∀ job ∈ (readFront P fs jobs).jobs, ReadInv job) ∧
      ∀ job ∈ (readFront P fs jobs).finished, (job.files.length : Int) ≤ job.fileNum := by
  induction jobs with
  | nil => exact ⟨List.forall_mem_nil _, List.forall_mem_nil _⟩
  | cons job jobs ih =>
    obtain ⟨hjob, hjobs⟩ := List.forall_mem_cons.mp h
    rw [readFront]
    split_ifs with hlast
    · rw [List.find?_cons_of_neg (by rw [hlast]; decide)] at hopen
      obtain ⟨hkeep, hfinished⟩ := ih hjobs hopen
      exact ⟨List.forall_mem_cons.mpr ⟨hjob, hkeep⟩, hfinished⟩
    · rw [List.find?_cons_of_pos (by rw [eq_false_of_ne_true hlast]; decide)] at hopen
      obtain ⟨hkeep, hfinished⟩ := hjob.afterReadJob P fs (hopen job rfl)
      exact ⟨List.forall_mem_append.mpr ⟨hkeep, hjobs⟩, hfinished⟩

/-- Opening the jobs does not change which one is read. -/
theorem find_opened {jobs : List TransferJob} (h : ∀ job ∈ jobs, ReadInv job) :
    (jobs.map fun job => (initJob P fs modified job).2).find? (fun job => !job.isLastJob) =
      (jobs.find? fun job => !job.isLastJob).map fun job => (initJob P fs modified job).2 := by
  induction jobs with
  | nil => rfl
  | cons job jobs ih =>
    obtain ⟨hjob, hjobs⟩ := List.forall_mem_cons.mp h
    have hlast := (hjob.afterInit P fs modified).1.isLastJob
    rw [List.map_cons, List.find?_cons, List.find?_cons, hlast, ih hjobs]
    split <;> rfl

theorem mem_of_mem_removeJob {id : Int} {jobs : List TransferJob}
    (h : job ∈ removeJob id jobs) : job ∈ jobs := List.mem_of_mem_eraseP h

theorem mem_of_mem_removeJobs {finished : List TransferJob} {jobs : List TransferJob}
    (h : job ∈ finished.foldl (fun jobs job => removeJob job.id jobs) jobs) : job ∈ jobs := by
  induction finished generalizing jobs with
  | nil => exact h
  | cons done finished ih => exact mem_of_mem_removeJob (ih h)

/-- A round reports only jobs with no file left when the job it reads is served. -/
theorem handleReadJobs_spec {jobs : List TransferJob} (h : ∀ job ∈ jobs, ReadInv job)
    (hserved : (jobs.find? fun job => !job.isLastJob).all (fileServed P fs modified) = true) :
    (∀ job ∈ (handleReadJobs P fs modified jobs).jobs, ReadInv job) ∧
      ∀ job ∈ (handleReadJobs P fs modified jobs).finished,
        (job.files.length : Int) ≤ job.fileNum := by
  have hinv : ∀ job ∈ (jobs.map (initJob P fs modified)).map Prod.snd, ReadInv job := by
    intro job hmem
    rw [List.map_map] at hmem
    obtain ⟨job', hmem', rfl⟩ := List.mem_map.mp hmem
    exact ((h job' hmem').afterInit P fs modified).2
  have hopen : ∀ job, ((jobs.map (initJob P fs modified)).map Prod.snd).find?
      (fun job => !job.isLastJob) = some job → Opened job := by
    intro job hfind
    rw [List.map_map] at hfind
    change (jobs.map fun job => (initJob P fs modified job).2).find? _ = _ at hfind
    rw [find_opened h] at hfind
    obtain ⟨job', hjob', rfl⟩ := Option.map_eq_some_iff.mp hfind
    have hlast := List.find?_some hjob'
    rw [Bool.not_eq_true'] at hlast
    rw [hjob', Option.all_some] at hserved
    exact (initJob_spec (h job' (List.mem_of_find?_eq_some hjob')) hlast).2.2 hserved
  obtain ⟨hkeep, hfinished⟩ := readFront_spec P fs hinv hopen
  exact ⟨fun job hmem => hkeep job (mem_of_mem_removeJobs hmem), hfinished⟩

/-- A confirm message keeps a reading job one, unless it skips the last number there is. -/
theorem ReadInv.confirm (h : ReadInv job) (fs : Fs) {r : FileTransferSendConfirmRequest}
    (hr : r.union = some (.skip true) → r.fileNum ≠ 2 ^ 31 - 1) :
    ReadInv (job.confirm P fs r) := by
  unfold TransferJob.confirm
  split_ifs with hnum
  · exact h
  · rw [not_not] at hnum
    have hconfirmed : ReadInv (job.setFileConfirmed true) :=
      h.of_same ⟨rfl, rfl, rfl, rfl, rfl, rfl⟩ h.fileNum
    split
    · rename_i hunion
      refine h.of_same ⟨rfl, rfl, rfl, rfl, rfl, rfl⟩ ?_
      have hskip : job.setFileSkipped.fileNum = wrapI32 (job.fileNum + 1) := rfl
      have hpos := h.fileNum
      have hlast := hr hunion
      rw [hskip, wrapI32]
      omega
    · exact hconfirmed
    · rename_i offset
      split_ifs with hpos
      · unfold setStreamOffset
        split
        · split
          · exact hconfirmed
          · split
            · exact hconfirmed
            · exact hconfirmed.of_same ⟨rfl, rfl, rfl, rfl, rfl, rfl⟩ hconfirmed.fileNum
        · exact hconfirmed
      · exact hconfirmed
    · exact h

theorem ReadInv.resume (h : ReadInv job) : ReadInv ({ job with
    isLastJob := false, isResume := true } : TransferJob).setFinishedSizeOnResume := by
  have hresume : ReadInv { job with isLastJob := false, isResume := true } :=
    ⟨h.type, h.source, h.direct, h.count, h.fileNum⟩
  unfold setFinishedSizeOnResume
  split_ifs
  · exact hresume.of_same ⟨rfl, rfl, rfl, rfl, rfl, rfl⟩ hresume.fileNum
  · exact hresume

theorem forall_mem_updateJob {id : Int} {f : TransferJob → TransferJob} {jobs : List TransferJob}
    (h : ∀ job ∈ jobs, ReadInv job) (hf : ∀ job, ReadInv job → ReadInv (f job)) :
    ∀ job ∈ updateJob id f jobs, ReadInv job := by
  induction jobs with
  | nil => exact h
  | cons job jobs ih =>
    obtain ⟨hjob, hjobs⟩ := List.forall_mem_cons.mp h
    rw [updateJob]
    split_ifs
    · exact List.forall_mem_cons.mpr ⟨hf job hjob, hjobs⟩
    · exact List.forall_mem_cons.mpr ⟨hjob, ih hjobs⟩

/-- A direct job starts at its first file and without overwrite detection. -/
theorem readInv_newDirectRead {id : Int} {source : PathBuf} {manifest : DirectTransferManifest}
    (h : newDirectRead P id source manifest = .ok job) (hcount : manifest.files.length < 2 ^ 31) :
    ReadInv job := by
  unfold newDirectRead at h
  split at h
  · cases h
  · split_ifs at h
    cases h
    exact ⟨rfl, ⟨source, rfl⟩, fun _ => rfl, hcount,
      ⟨Int.le_refl 0, show (0 : Int) < 2 ^ 31 by decide⟩⟩

variable (P) in
/-- The condition on a step: a job starts at a number of an `i32` that is not negative and
its files can be counted by one, the file a round reads is served, and no confirm message
skips the last number of an `i32`. -/
def ReadFair (s : ReadState) : ReadEvent → Prop
  | .start _ _ _ fileNum _ _ _ _ files =>
    0 ≤ fileNum ∧ fileNum < 2 ^ 31 ∧ files.length < 2 ^ 31
  | .startDirect _ _ manifest => manifest.files.length < 2 ^ 31
  | .round fs modified =>
    (s.jobs.find? fun job => !job.isLastJob).all (fileServed P fs modified) = true
  | .confirm _ r => r.union = some (.skip true) → r.fileNum ≠ 2 ^ 31 - 1
  | .resume _ | .cancel _ => True

instance (s : ReadState) : ∀ e, Decidable (ReadFair P s e)
  | .start .. => inferInstanceAs (Decidable (_ ∧ _ ∧ _))
  | .startDirect .. => inferInstanceAs (Decidable (_ < _))
  | .round .. => inferInstanceAs (Decidable (_ = _))
  | .confirm .. => inferInstanceAs (Decidable (_ → _))
  | .resume _ | .cancel _ => inferInstanceAs (Decidable True)

/-- What holds of the jobs of a connection. -/
structure ReadState.Inv (s : ReadState) : Prop where
  jobs : ∀ job ∈ s.jobs, ReadInv job
  finished : ∀ job ∈ s.finished, (job.files.length : Int) ≤ job.fileNum

/-- An event whose condition holds keeps the invariant. -/
theorem readStep_inv {s : ReadState} (h : s.Inv) {e : ReadEvent} (hfair : ReadFair P s e) :
    (readStep P s e).Inv := by
  cases e with
  | start id remote path fileNum showHidden isRemote detection isLastJob files =>
    refine ⟨List.forall_mem_append.mpr ⟨h.jobs, List.forall_mem_singleton.mpr ?_⟩, h.finished⟩
    exact ⟨rfl, ⟨path, rfl⟩, nofun, hfair.2.2, hfair.1, hfair.2.1⟩
  | startDirect id source manifest =>
    rw [readStep]
    split
    · exact h
    · rename_i job hjob
      exact ⟨List.forall_mem_append.mpr ⟨h.jobs,
        List.forall_mem_singleton.mpr (readInv_newDirectRead hjob hfair)⟩, h.finished⟩
  | resume id => exact ⟨forall_mem_updateJob h.jobs fun job hjob => hjob.resume, h.finished⟩
  | round fs modified =>
    obtain ⟨hjobs, hfinished⟩ := handleReadJobs_spec h.jobs hfair
    exact ⟨hjobs, List.forall_mem_append.mpr ⟨h.finished, hfinished⟩⟩
  | confirm fs r =>
    exact ⟨forall_mem_updateJob h.jobs fun job hjob => hjob.confirm fs hfair, h.finished⟩
  | cancel id => exact ⟨fun job hmem => h.jobs job (mem_of_mem_removeJob hmem), h.finished⟩

/-- In every run whose rounds find the file they read served, a job is reported as finished
only behind its last file. -/
theorem read_jobs_finish_exhausted {es : List ReadEvent}
    (h : Allowed (readStep P) (ReadFair P) {} es) :
    ∀ job ∈ (run (readStep P) {} es).finished, (job.files.length : Int) ≤ job.fileNum := by
  have hinv : (run (readStep P) {} es).Inv :=
    run_keeps (Q := ReadState.Inv) (fun s e hs hfair => readStep_inv hs hfair)
      ⟨List.forall_mem_nil _, List.forall_mem_nil _⟩ h
  exact hinv.finished

/-- A job with one file, which the peer confirms and the job then sends. -/
theorem read_jobs_finish_exhausted_one :
    let fs : Fs := { entries := [(["d"], .dir), (["d", "a"], .file [1])] }
    let modified : Modified := fun _ => some 0
    let es : List ReadEvent := [
      .start 1 "r" ["d"] 0 false false true false [{ name := "a", size := 1 }],
      .round fs modified, .confirm fs { id := 1, fileNum := 0, union := some (.skip false) },
      .round fs modified, .round fs modified, .round fs modified]
    Allowed (readStep .posix) (ReadFair .posix) {} es ∧
      ∀ job ∈ (run (readStep .posix) {} es).finished, (job.files.length : Int) ≤ job.fileNum :=
  ⟨by decide, read_jobs_finish_exhausted (by decide)⟩

/-- A file that cannot be opened ends a job in front of the file behind it. -/
theorem read_jobs_lose_file :
    let fs : Fs := { entries := [(["d"], .dir), (["d", "b"], .file [1])] }
    let es : List ReadEvent := [
      .start 1 "r" ["d"] 0 false false true false
        [{ name := "a", size := 1 }, { name := "b", size := 1 }],
      .round fs fun _ => some 0]
    ∃ job ∈ (run (readStep .posix) {} es).finished, job.fileNum < job.files.length := by
  decide

end TransferJob

end MDesk
