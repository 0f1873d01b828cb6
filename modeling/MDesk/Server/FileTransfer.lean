import Mathlib.Data.Finset.Erase
import Mathlib.Data.Finset.Insert
import MDesk.Core.Table
import MDesk.Server.FileAudit
import MDesk.Transfer.ReadJobs

/-!
# The file transfers of a connection

What a controlled host does with the file messages of its controller: reading jobs are
served by the connection itself, everything that writes is passed on to the connection
manager. Both ways the terminal outcome of a transfer is posted to the audit.
-/

namespace MDesk

open MDesk.Core

/-- A reading job, numbered by the request that started it. -/
structure HostJob where
  serial : Nat
  job : TransferJob
  deriving DecidableEq, Repr

/-- A transfer to be accounted for: its number in its direction, and its files. -/
structure AuditItem where
  direction : EnterpriseFileDirection
  serial : Nat
  files : List (String × Int)
  deriving DecidableEq, Repr

def PendingFileAudit.item (pending : PendingFileAudit) : AuditItem :=
  { direction := pending.direction, serial := pending.serial, files := pending.files }

/-- What becomes of a connection: its loop runs, then the answers of the connection manager
are drained, then it is closed. -/
inductive Phase where
  | running
  | draining
  | closed
  deriving DecidableEq, Repr

/-- The file side of an authorised connection. `newWrites` and `reads` count the write and
read jobs asked for and `drawn` the identifiers drawn; `remembered`, `finishedReads` and
`sentBlocks` note what happened. -/
structure Connection where
  auditContext : Option AuditContext
  controllerRid : String := ""
  /-- `file_transfer.is_some()`. -/
  fileTransfer : Bool := false
  isRemote : Bool := true
  /-- `can_enable_overwrite_detection` of the version of the controller. -/
  overwriteDetection : Bool := true
  serverAuditFile : String := ""
  serverAuditConn : String := ""
  pendingFileAudits : Table Int PendingFileAudit := ∅
  deviceRemoteJobs : Finset Int := ∅
  readJobs : List HostJob := []
  phase : Phase := .running
  newWrites : Nat := 0
  reads : Nat := 0
  drawn : Nat := 0
  posted : List FileAuditEvent := []
  remembered : List AuditItem := []
  finishedReads : List Nat := []
  sentBlocks : List Nat := []

/-- What a connection sends to the connection manager. The actions on files without a job
only matter for the id they are answered with. -/
inductive ToCm where
  | fs (message : FsMessage)
  | action (id fileNum : Int)
  deriving DecidableEq, Repr

/-- What a connection handles. A `send` is a request whose reading job could be made; a
`done` tells whether the remote tool is still permitted; the rounds over the reading jobs
see the disk as it is then. The last three are the end of the connection. -/
inductive ServerEvent where
  | send (id : Int) (type : JobType) (path : String) (fileNum : Int) (includeHidden : Bool)
      (source : DataSource) (files : List FileEntry) (fs : Fs)
  | receive (id : Int) (path : String) (fileNum : Int) (files : List FileEntry) (totalSize : Nat)
      (fs : Fs)
  | startDirect (id : Int) (source : PathBuf) (manifest : DirectTransferManifest)
  | action (id fileNum : Int)
  | cancel (id : Int)
  | sendConfirm (r : TransferJob.FileTransferSendConfirmRequest) (fs : Fs)
  | block (id fileNum : Int) (data : Bytes) (compressed : Bool)
  | done (id fileNum : Int) (permitted : Bool)
  | digest (id fileNum : Int) (fileSize lastModified : Nat) (isResume : Bool)
  | error (id fileNum : Int) (err : String)
  | answer (a : CmAnswer)
  | round (fs : Fs) (modified : TransferJob.Modified)
  | leave
  | drained (a : CmAnswer)
  | close

namespace Connection

variable (H : AuditHost)

/-! ## Records -/

/-- `enterprise_file_transfer_mode`. -/
def enterpriseFileTransferMode (c : Connection) (direction : EnterpriseFileDirection)
    (path : String) : Option EnterpriseFileTransferMode :=
  match c.auditContext with
  | none => none
  | some context =>
    if context.complete then
      enterpriseFileTransferModeFor c.fileTransfer c.isRemote direction path
    else none

/-- The insertion of a record, which replaces the one of the same job id. -/
def insertPending (c : Connection) (jobId : Int) (pending : PendingFileAudit) : Connection :=
  { c with
    pendingFileAudits := c.pendingFileAudits.insert jobId pending
    drawn := c.drawn + 1
    remembered := c.remembered ++ [pending.item] }

/-- `remember_enterprise_file_transfer`. -/
def rememberEnterpriseFileTransfer (c : Connection) (fs : Fs) (serial : Nat) (jobId : Int)
    (direction : EnterpriseFileDirection) (path : String) (files : List (String × Int)) :
    Connection :=
  match c.enterpriseFileTransferMode direction path with
  | none => c
  | some transferMode => c.insertPending jobId {
      serial
      transferId := H.uuid c.drawn
      direction
      transferMode
      path := enterpriseFileAuditPath transferMode path
      files := normalizedAuditFiles H
        (enterpriseFileNormalizationPath H.toHost fs transferMode path) files }

/-- `remember_enterprise_direct_download`. -/
def rememberEnterpriseDirectDownload (c : Connection) (serial : Nat) (jobId : Int)
    (rootName : String) (files : List (String × Int)) : Connection :=
  match c.auditContext with
  | none => c
  | some context =>
    if context.complete then c.insertPending jobId {
      serial
      transferId := H.uuid c.drawn
      direction := .download
      transferMode := .remoteDirectDownload
      path := "Downloads"
      files := normalizedDirectDownloadAuditFiles rootName files }
    else c

/-- The server the events are posted to. -/
def auditBase (c : Connection) : String :=
  if isBlank c.serverAuditFile then
    trimEndMatches (trimEndMatches c.serverAuditConn "/api/audit/conn") "/"
  else trimEndMatches (trimEndMatches c.serverAuditFile "/api/audit/file") "/"

/-- The events of a terminal outcome, one a batch of files. -/
def outcomeEvents (c : Connection) (context : AuditContext) (pending : PendingFileAudit)
    (status : FileOutcome) : List FileAuditEvent :=
  (chunks 100 pending.files).zipIdx.map fun (files, batch) => {
    serial := pending.serial
    url := c.auditBase ++ "/api/audit/v2/file"
    ticket := context.connectionTicket
    sourceConnectionId := context.sourceConnectionId
    eventId := H.uuid (c.drawn + batch)
    transferId :=
      if 100 < pending.files.length then pending.transferId ++ ":" ++ toString (batch + 1)
      else pending.transferId
    event := status
    reporterRid := H.id
    reporterUuid := H.encodedUuid
    controllerRid := c.controllerRid
    direction := pending.direction
    transferMode := pending.transferMode
    path := pending.path
    files
    occurredAt := H.clock c.drawn }

/-- `post_enterprise_file_outcome`. -/
def postEnterpriseFileOutcome (c : Connection) (jobId : Int) (status : FileOutcome) : Connection :=
  match c.pendingFileAudits.get jobId with
  | none => c
  | some pending =>
    let c := { c with pendingFileAudits := c.pendingFileAudits.remove jobId }
    match c.auditContext with
    | none => c
    | some context =>
      if ¬ context.complete then c
      else if c.auditBase.isEmpty then c
      else
        let events := c.outcomeEvents H context pending status
        { c with posted := c.posted ++ events, drawn := c.drawn + events.length }

/-- The record of a job id is of a direction. -/
def pendingIs (c : Connection) (jobId : Int) (direction : EnterpriseFileDirection) : Bool :=
  (c.pendingFileAudits.get jobId).any fun pending => pending.direction = direction

/-- `capture_enterprise_file_outcome_from_cm`, of an answer with its terminal outcome. -/
def captureEnterpriseFileOutcomeFromCm (c : Connection) (jobId : Int) (status : FileOutcome) :
    Connection :=
  let c := { c with deviceRemoteJobs := c.deviceRemoteJobs.erase jobId }
  if c.pendingIs jobId .upload then c.postEnterpriseFileOutcome H jobId status else c

/-! ## Reading jobs -/

/-- `new_read`, of a source with the files found in it, as a connection makes it. -/
def newRead (c : Connection) (id : Int) (type : JobType) (fileNum : Int) (includeHidden : Bool)
    (source : DataSource) (files : List FileEntry) : TransferJob :=
  { id, type, remote := "", dataSource := source, fileNum, showHidden := includeHidden
    isRemote := true
    files := match source with
      | .filePath _ => files
      | .memoryCursor _ => []
    totalSize := match source with
      | .filePath _ => (files.map (·.size)).sum % 2 ^ 64
      | .memoryCursor contents => contents.length
    enableOverwriteDetection := c.overwriteDetection }

/-- What a round leaves, the jobs it finished, and the job a block was sent of. -/
structure HostRound where
  jobs : List HostJob
  finished : List HostJob := []
  sent : List Nat := []

/-- A block among what a round sends. -/
def isBlock : TransferJob.FileResponse → Bool
  | .block _ => true
  | _ => false

/-- The loop of `handle_read_jobs`: it ends with the first job that is not a last job. -/
def readFront (P : Platform) (fs : Fs) : List HostJob → HostRound
  | [] => { jobs := [] }
  | j :: jobs =>
    if j.job.isLastJob then
      let round := readFront P fs jobs
      { round with jobs := j :: round.jobs }
    else
      let round := j.job.readJob P fs
      { jobs := (round.jobs.map fun job => { j with job }) ++ jobs
        finished := round.finished.map fun job => { j with job }
        sent := (round.sent.filter isBlock).map fun _ => j.serial }

/-- `remove_job`. -/
def removeJob (id : Int) (jobs : List HostJob) : List HostJob := jobs.eraseP fun j => j.job.id = id

/-- `handle_read_jobs`. -/
def handleReadJobs (P : Platform) (fs : Fs) (modified : TransferJob.Modified)
    (jobs : List HostJob) :
    HostRound :=
  let round := readFront P fs
    (jobs.map fun j => { j with job := (j.job.initJob P fs modified).2 })
  { round with jobs := round.finished.foldl (fun jobs j => removeJob j.job.id jobs) round.jobs }

/-- Without their numbers, the jobs go through the round of `TransferJob.readFront`. -/
theorem readFront_jobs (P : Platform) (fs : Fs) (jobs : List HostJob) :
    let round := readFront P fs jobs
    let plain := TransferJob.readFront P fs (jobs.map HostJob.job)
    round.jobs.map HostJob.job = plain.jobs ∧ round.finished.map HostJob.job = plain.finished := by
  induction jobs with
  | nil => exact ⟨rfl, rfl⟩
  | cons j jobs ih =>
    rw [List.map_cons, readFront, TransferJob.readFront]
    split_ifs
    · exact ⟨congrArg (j.job :: ·) ih.1, ih.2⟩
    · have hid : (HostJob.job ∘ fun job => { j with job }) = id := rfl
      dsimp only
      rw [List.map_append, List.map_map, List.map_map, hid, List.map_id, List.map_id]
      exact ⟨rfl, rfl⟩

theorem removeJob_jobs (id : Int) (jobs : List HostJob) :
    (removeJob id jobs).map HostJob.job = TransferJob.removeJob id (jobs.map HostJob.job) := by
  unfold removeJob TransferJob.removeJob
  rw [List.eraseP_map]
  rfl

/-- Without their numbers, the jobs go through `TransferJob.handleReadJobs`. -/
theorem handleReadJobs_jobs (P : Platform) (fs : Fs) (modified : TransferJob.Modified)
    (jobs : List HostJob) :
    (handleReadJobs P fs modified jobs).jobs.map HostJob.job =
      (TransferJob.handleReadJobs P fs modified (jobs.map HostJob.job)).jobs := by
  have hremove : ∀ (finished jobs : List HostJob),
      (finished.foldl (fun jobs j => removeJob j.job.id jobs) jobs).map HostJob.job =
        (finished.map HostJob.job).foldl (fun jobs job => TransferJob.removeJob job.id jobs)
          (jobs.map HostJob.job) := by
    intro finished
    induction finished with
    | nil => exact fun _ => rfl
    | cons j finished ih =>
      intro jobs
      rw [List.foldl_cons, ih, removeJob_jobs]
      rfl
  obtain ⟨hjobs, hfinished⟩ := readFront_jobs P fs
    (jobs.map fun j => { j with job := (j.job.initJob P fs modified).2 })
  unfold handleReadJobs TransferJob.handleReadJobs
  dsimp only
  rw [hremove, hjobs, hfinished, List.map_map, List.map_map, List.map_map]
  rfl

/-- Change the job that `get_job` gives. -/
def updateJob (id : Int) (f : TransferJob → TransferJob) : List HostJob → List HostJob
  | [] => []
  | j :: jobs =>
    if j.job.id = id then { j with job := f j.job } :: jobs else j :: updateJob id f jobs

/-- What the loop does with the outcome of a finished reading job. -/
def readOutcome (c : Connection) (job : TransferJob) : Connection :=
  if c.pendingIs job.id .download then
    if job.auditError.isNone then
      match c.pendingFileAudits.get job.id with
      | none => c
      | some pending =>
        { c with
          pendingFileAudits := c.pendingFileAudits.insert job.id
            { pending with sourceFinished := true } }
    else c.postEnterpriseFileOutcome H job.id .failed
  else c

/-- A tick of the file timer. -/
def tick (c : Connection) (fs : Fs) (modified : TransferJob.Modified) : Connection :=
  let round := handleReadJobs H.platform fs modified c.readJobs
  let c := { c with
    readJobs := round.jobs
    finishedReads := c.finishedReads ++
      (round.finished.filter fun j => j.job.auditError.isNone).map HostJob.serial
    sentBlocks := c.sentBlocks ++ round.sent }
  round.finished.foldl (fun c j => c.readOutcome H j.job) c

/-! ## Messages -/

/-- A `Send` request whose reading job could be made. -/
def send (c : Connection) (id : Int) (type : JobType) (path : String) (fileNum : Int)
    (includeHidden : Bool) (source : DataSource) (files : List FileEntry) (fs : Fs) : Connection :=
  let serial := c.reads
  let job := c.newRead id type fileNum includeHidden source files
  let c := { c with reads := serial + 1, readJobs := c.readJobs ++ [({ serial, job } : HostJob)] }
  let auditPath := if type = .printer then "Remote print" else path
  c.rememberEnterpriseFileTransfer H fs serial id .download auditPath
    (getFilesForAudit type job.files)

/-- A `Receive` request. -/
def receive (c : Connection) (id : Int) (path : String) (fileNum : Int) (files : List FileEntry)
    (totalSize : Nat) (fs : Fs) : Connection × List ToCm :=
  let serial := c.newWrites
  let c := { c with
    newWrites := serial + 1
    deviceRemoteJobs :=
      if path = deviceRemoteTarget then insert id c.deviceRemoteJobs else c.deviceRemoteJobs }
  (c.rememberEnterpriseFileTransfer H fs serial id .upload path (getFilesForAudit .generic files),
    [.fs (.newWrite path id fileNum (files.map fun f => (f.name, f.modifiedTime))
      c.overwriteDetection totalSize)])

/-- `start_direct_file_transfer`, of a manifest and the next id. -/
def startDirectFileTransfer (c : Connection) (id : Int) (source : PathBuf)
    (manifest : DirectTransferManifest) : Connection :=
  if (c.readJobs.any fun j => j.job.id = id) ∨ (c.pendingFileAudits.get id).isSome then c
  else
    match TransferJob.newDirectRead H.platform id source manifest with
    | .error _ => c
    | .ok job =>
      let serial := c.reads
      let c := { c with reads := serial + 1 }
      let auditFiles := manifest.files.map fun file =>
        (if file.name.isEmpty then manifest.rootName else file.name,
          min (file.size : Int) (2 ^ 63 - 1))
      let c := c.rememberEnterpriseDirectDownload H serial id manifest.rootName auditFiles
      { c with readJobs := c.readJobs ++ [({ serial, job } : HostJob)] }

/-- A `Done` of the controller: the acknowledgement of a download, or the end of an upload. -/
def done (c : Connection) (id fileNum : Int) (permitted : Bool) : Connection × List ToCm :=
  let revoked := id ∈ c.deviceRemoteJobs ∧ ¬ permitted
  let c := { c with deviceRemoteJobs := c.deviceRemoteJobs.erase id }
  if revoked then (c.postEnterpriseFileOutcome H id .failed, [.fs (.cancelWrite id)])
  else if (c.pendingFileAudits.get id).any fun pending =>
      pending.direction = .download ∧ pending.sourceFinished then
    (c.postEnterpriseFileOutcome H id .completed, [])
  else if c.pendingIs id .download then (c, [])
  else (c, [.fs (.writeDone id fileNum)])

/-- An `Error` of the controller. -/
def error (c : Connection) (id fileNum : Int) (err : String) : Connection × List ToCm :=
  let c := { c with deviceRemoteJobs := c.deviceRemoteJobs.erase id }
  if c.pendingIs id .download then
    (({ c with readJobs := removeJob id c.readJobs } : Connection).postEnterpriseFileOutcome H id
      .failed, [])
  else (c, [.fs (.writeError id fileNum err)])

/-- A `Cancel` of the controller. -/
def cancel (c : Connection) (id : Int) : Connection × List ToCm :=
  (({ c with
      deviceRemoteJobs := c.deviceRemoteJobs.erase id
      readJobs := removeJob id c.readJobs } : Connection).postEnterpriseFileOutcome H id .cancelled,
    [.fs (.cancelWrite id)])

/-- The answer to a digest that the connection has sent, or one for the connection manager. -/
def sendConfirm (c : Connection) (r : TransferJob.FileTransferSendConfirmRequest) (fs : Fs) :
    Connection × List ToCm :=
  if c.readJobs.any fun j => j.job.id = r.id then
    ({ c with readJobs := updateJob r.id (fun job => job.confirm H.platform fs r) c.readJobs }, [])
  else (c, [.fs (.sendConfirm (some r))])

/-- An answer of the connection manager while the loop runs. -/
def answer (c : Connection) : CmAnswer → Connection
  | .done id _ => c.captureEnterpriseFileOutcomeFromCm H id .completed
  | .error id _ _ => c.captureEnterpriseFileOutcomeFromCm H id .failed
  | .outcome id succeeded =>
    if c.pendingIs id .upload then
      c.postEnterpriseFileOutcome H id (if succeeded then .completed else .failed)
    else c
  | .sendConfirm _ => c
  | .digest _ => c

/-- An answer that is drained when the loop has ended. -/
def drain (c : Connection) : CmAnswer → Connection
  | .done id _ => c.captureEnterpriseFileOutcomeFromCm H id .completed
  | .error id _ _ => c.captureEnterpriseFileOutcomeFromCm H id .failed
  | .outcome id succeeded =>
    c.postEnterpriseFileOutcome H id (if succeeded then .completed else .failed)
  | .sendConfirm _ => c
  | .digest _ => c

/-- The records that are left are closed. -/
def closeFileAudits (c : Connection) : Connection :=
  c.pendingFileAudits.keys.foldl (fun c id => c.postEnterpriseFileOutcome H id .cancelled) c

/-- Some upload has no outcome yet. -/
def uploadPending (c : Connection) : Bool :=
  c.pendingFileAudits.entries.any fun e => e.2.direction = .upload

/-- What the loop does with an event, and what it sends to the connection manager. -/
def handle (c : Connection) : ServerEvent → Connection × List ToCm
  | .send id type path fileNum includeHidden source files fs =>
    (c.send H id type path fileNum includeHidden source files fs, [])
  | .receive id path fileNum files totalSize fs => c.receive H id path fileNum files totalSize fs
  | .startDirect id source manifest => (c.startDirectFileTransfer H id source manifest, [])
  | .action id fileNum => (c, [.action id fileNum])
  | .cancel id => c.cancel H id
  | .sendConfirm r fs => c.sendConfirm H r fs
  | .block id fileNum data compressed => (c, [.fs (.writeBlock id fileNum data compressed)])
  | .done id fileNum permitted => c.done H id fileNum permitted
  | .digest id fileNum fileSize lastModified isResume =>
    (c, [.fs (.checkDigest id fileNum fileSize lastModified true isResume)])
  | .error id fileNum err => c.error H id fileNum err
  | .answer a => (c.answer H a, [])
  | .round fs modified => (c.tick H fs modified, [])
  | .leave => ({ c with phase := .draining }, [])
  | .drained _ => (c, [])
  | .close => (c, [])

/-- An event in the phase of the connection. What has come too late is not handled. -/
def next (c : Connection) (e : ServerEvent) : Connection × List ToCm :=
  match c.phase, e with
  | .running, e => c.handle H e
  | .draining, .drained a => (if c.uploadPending then c.drain H a else c, [])
  | .draining, .close => ({ c.closeFileAudits H with phase := .closed }, [])
  | .draining, _ => (c, [])
  | .closed, _ => (c, [])

/-- One event. -/
def step (c : Connection) (e : ServerEvent) : Connection := (c.next H e).1

end Connection

end MDesk
