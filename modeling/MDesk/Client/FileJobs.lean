import MDesk.Core.Table
import MDesk.Direct.Download
import MDesk.Transfer.ReadJobs

/-!
# The file jobs of a controller

The part of `Remote`, the loop of the controller over one session, that concerns files: the
messages of the peer and of the user interface that start, change or end a job. Downloads that
the peer pushes share the list of writing jobs, and the ids, with the transfers of the user.
-/

namespace MDesk

open MDesk.Core

/-- `DIRECT_DOWNLOAD_MAX_CONCURRENT`. -/
def directDownloadMaxConcurrent : Nat := 4

/-- The file jobs of `Remote`. Besides the fields of the source it keeps the request every
download was accepted with last, and how many bytes the blocks of downloads have stored. -/
structure Remote where
  fs : Fs
  readJobs : List TransferJob := []
  writeJobs : List TransferJob := []
  directDownloadJobs : Table Int DirectDownloadJob := ∅
  directDownloadSessionAcceptedBytes : Nat := 0
  manifests : Int → Option DirectFileTransferReceiveRequest := fun _ => none
  written : Nat := 0

/-- `get_job`. -/
def getJob (id : Int) (jobs : List TransferJob) : Option TransferJob :=
  jobs.find? fun job => job.id = id

/-- `transform_windows_path`. -/
def transformWindowsPath (entries : List FileEntry) : List FileEntry :=
  entries.map fun entry => { entry with
    name := String.ofList (entry.name.toList.map fun c => if c = '\\' then '/' else c) }

namespace Remote

variable (H : Host)

/-- The bytes that the active downloads have announced. -/
def acceptedDirectBytes (r : Remote) : Nat :=
  (r.directDownloadJobs.entries.map fun e => e.2.totalSize).sum

/-- `handle_direct_download_request`: the error of a rejection, and what it leaves. `enabled` is
`direct_download_receive_enabled`. An overflow of a checked sum exceeds the limit, too. -/
def handleDirectDownloadRequest (r : Remote) (enabled : Bool)
    (request : DirectFileTransferReceiveRequest) : Option String × Remote :=
  if ¬ H.platform.windows then
    (some "direct Downloads receive is supported on Windows only", r)
  else if 0 ≤ request.id then (some "invalid transfer id", r)
  else if ¬ enabled then
    (some "direct file receive is not permitted for this connection", r)
  else if request.destination ≠ some .downloads then
    (some "unsupported direct transfer destination", r)
  else if (r.readJobs.any fun job => job.id = request.id) ∨
      (r.writeJobs.any fun job => job.id = request.id) ∨
      (r.directDownloadJobs.get request.id).isSome then (some "duplicate transfer id", r)
  else if directDownloadMaxConcurrent ≤ r.directDownloadJobs.len then
    (some "too many concurrent direct transfers", r)
  else if directTransferMaxTotalBytes < r.acceptedDirectBytes + request.totalSize then
    (some "concurrent direct transfers exceed the unattended size limit", r)
  else if directTransferMaxTotalBytes <
      r.directDownloadSessionAcceptedBytes + request.totalSize then
    (some "REMOTE session direct transfer quota is exhausted", r)
  else
    match acceptDirectDownload H r.fs request with
    | (.error e, fs) => (some e, { r with fs })
    | (.ok (job, entry), fs) => (none, { r with
        fs
        writeJobs := r.writeJobs ++ [job]
        directDownloadSessionAcceptedBytes :=
          r.directDownloadSessionAcceptedBytes + request.totalSize
        directDownloadJobs := r.directDownloadJobs.insert request.id entry
        manifests := Function.update r.manifests request.id (some request) })

/-- `release_direct_download_job`. -/
def releaseDirectDownloadJob (r : Remote) (id : Int) : Remote :=
  match r.directDownloadJobs.get id with
  | none => r
  | some entry => { r with
      directDownloadJobs := r.directDownloadJobs.remove id
      fs := releaseDirectDownloadReservation r.fs entry.destination entry.isDirectory }

/-- Take a writing job off the list and remove what it was receiving. -/
def dropWriteJob (r : Remote) (id : Int) : Remote :=
  match getJob id r.writeJobs with
  | none => r
  | some job => { r with
      writeJobs := TransferJob.removeJob id r.writeJobs
      fs := job.removeDownloadFile H.platform r.fs }

/-- What ends a download in disorder. -/
def abandonDownload (r : Remote) (id : Int) : Remote :=
  (r.dropWriteJob H id).releaseDirectDownloadJob id

/-- `cancel_transfer_job`. -/
def cancelTransferJob (r : Remote) (id : Int) : Remote :=
  let r := r.abandonDownload H id
  { r with readJobs := TransferJob.removeJob id r.readJobs }

/-- The entries of a listing; elsewhere the names of a Windows peer are changed. -/
def dirEntries (windowsPeer : Bool) (entries : List FileEntry) : List FileEntry :=
  if ¬ H.platform.windows ∧ windowsPeer then transformWindowsPath entries else entries

/-- `FileResponse::Dir`. -/
def dir (r : Remote) (id : Int) (entries : List FileEntry) : Remote :=
  match getJob id r.writeJobs with
  | none => r
  | some job =>
    match job.setFiles H.platform r.fs entries with
    | .error _ => r.cancelTransferJob H id
    | .ok job => { r with
        writeJobs := TransferJob.updateJob id (fun _ => job.setFinishedSizeOnResume) r.writeJobs }

/-- The answer to a digest that has been compared; `none` asks the user. -/
def overwriteAnswer (job : TransferJob) (digest : FileTransferDigest) :
    Option TransferJob.ConfirmUnion :=
  if digest.isIdentical ∧ job.isResume ∧ 0 < digest.transferredSize then
    some (.offsetBlk (digest.transferredSize % 2 ^ 32))
  else job.defaultOverwriteStrategy.map fun overwrite =>
    if overwrite then .offsetBlk 0 else .skip true

/-- What a digest of the peer does to the job that receives the file. `resumable` is
`is_support_file_transfer_resume_num` of the peer's version. -/
def receiveDigest (job : TransferJob) (fs : Fs) (resumable : Bool) (modified : ModifiedAt)
    (digest : FileTransferDigest) : TransferJob :=
  match job.files[asUsize digest.fileNum]?, job.dataSource with
  | some file, .filePath base =>
    let job := job.setDigest digest.fileSize digest.lastModified
    let confirm (union : TransferJob.ConfirmUnion) : TransferJob :=
      job.confirm H.platform fs { id := digest.id, fileNum := digest.fileNum, union := some union }
    match isWriteNeedConfirmation H.parseDigest fs modified (resumable && job.isResume)
        (H.platform.join base file.name) digest with
    | .ok .isSame => confirm (.skip true)
    | .ok (.needConfirm compared) =>
      match overwriteAnswer job compared with
      | some union => confirm union
      | none => job
    | .ok .noSuchFile => confirm (.offsetBlk 0)
    | .error _ => job
  | _, _ => job

/-- What a digest of the peer does to the job that sends the file. -/
def sendDigest (job : TransferJob) (fs : Fs) (digest : FileTransferDigest) : TransferJob :=
  match job.files[asUsize digest.fileNum]?, job.dataSource with
  | some _, .filePath _ =>
    match overwriteAnswer job digest with
    | some union =>
      job.confirm H.platform fs { id := digest.id, fileNum := digest.fileNum, union := some union }
    | none => job
  | _, _ => job

/-- `FileResponse::Digest`. -/
def digest (r : Remote) (resumable : Bool) (modified : ModifiedAt) (digest : FileTransferDigest) :
    Remote :=
  if (r.directDownloadJobs.get digest.id).isSome then r.abandonDownload H digest.id
  else if digest.isUpload then
    { r with
      readJobs := TransferJob.updateJob digest.id (fun job => sendDigest H job r.fs digest)
        r.readJobs }
  else
    { r with
      writeJobs := TransferJob.updateJob digest.id
        (fun job => receiveDigest H job r.fs resumable modified digest) r.writeJobs }

/-- The bytes a block of a download stores. -/
def storedBytes (job : TransferJob) (fs : Fs) (block : FileTransferBlock) : Nat :=
  ((job.acceptedBlock H.platform fs block).map fun a => a.2.length).sum

/-- `FileResponse::Block`. -/
def block (r : Remote) (enabled : Bool) (block : FileTransferBlock) : Remote :=
  if (r.directDownloadJobs.get block.id).isSome ∧ ¬ enabled then r.abandonDownload H block.id
  else
    match getJob block.id r.writeJobs with
    | none => r
    | some job =>
      let o := job.write H.platform r.fs block
      let r := { r with
        fs := o.fs
        writeJobs := TransferJob.updateJob block.id (fun _ => o.job) r.writeJobs
        written := r.written +
          if (r.directDownloadJobs.get block.id).isSome then storedBytes H job r.fs block else 0 }
      match o.result with
      | .ok () => r
      | .error _ => r.abandonDownload H block.id

/-- `FileResponse::Done`. -/
def done (r : Remote) (enabled : Bool) (id : Int) : Remote :=
  let r' := { r with
    directDownloadJobs := r.directDownloadJobs.remove id
    writeJobs := TransferJob.removeJob id r.writeJobs }
  match r.directDownloadJobs.get id, getJob id r.writeJobs with
  | some entry, some job =>
    { r' with fs := (job.finishDirect H.platform entry r.fs enabled).2 }
  | some entry, none =>
    { r' with fs := releaseDirectDownloadReservation r.fs entry.destination entry.isDirectory }
  | none, some job => { r' with fs := (job.finalizeWrite H.platform r.fs).fs }
  | none, none => r'

/-- `FileResponse::Error`. -/
def error (r : Remote) (id : Int) : Remote :=
  if (r.directDownloadJobs.get id).isSome then r.abandonDownload H id
  else { r with writeJobs := TransferJob.removeJob id r.writeJobs }

/-- `FileAction::Cancel`. -/
def cancel (r : Remote) (id : Int) : Remote :=
  if (r.directDownloadJobs.get id).isSome then r.abandonDownload H id else r

/-- The answer of the user about a file. -/
def confirmOverride (r : Remote) (id fileNum : Int) (needOverride remember isUpload : Bool) :
    Remote :=
  let answer (job : TransferJob) : TransferJob :=
    let job := if remember then { job with defaultOverwriteStrategy := some needOverride } else job
    job.confirm H.platform r.fs {
      id, fileNum
      union := some (if needOverride then .offsetBlk 0 else .skip true) }
  if isUpload then { r with readJobs := TransferJob.updateJob id answer r.readJobs }
  else { r with writeJobs := TransferJob.updateJob id answer r.writeJobs }

/-- The end of the session: every download is abandoned. -/
def disconnect (r : Remote) : Remote :=
  (r.directDownloadJobs.entries.map fun e => e.1).foldl (fun r id => r.abandonDownload H id) r

/-- What happens to the file jobs of a session: messages of the peer with the permission of the
moment they come, what the user asks for, the reading jobs going on by themselves, and the end. -/
inductive RemoteEvent where
  | directReceive (enabled : Bool) (request : DirectFileTransferReceiveRequest)
  | dir (id : Int) (windowsPeer : Bool) (entries : List FileEntry)
  | digest (resumable : Bool) (modified : ModifiedAt) (digest : FileTransferDigest)
  | block (enabled : Bool) (block : FileTransferBlock)
  | done (enabled : Bool) (id : Int)
  | error (id : Int)
  | cancel (id : Int)
  | sendFiles (id : Int) (type : JobType) (path target : String) (fileNum : Int)
      (includeHidden detection : Bool)
  | addJob (id : Int) (type : JobType) (path target : String) (fileNum : Int)
      (includeHidden detection : Bool)
  | resumeJob (id : Int)
  | confirmOverride (id fileNum : Int) (needOverride remember isUpload : Bool)
  | cancelJob (id : Int)
  | reading (e : TransferJob.ReadEvent)
  | disconnect

/-- The job `Data::SendFiles` receives files with. -/
def newWriteFor (id : Int) (type : JobType) (path target : String) (fileNum : Int)
    (includeHidden detection : Bool) : TransferJob :=
  .newWrite id type path
    (match type with
      | .generic => .filePath (H.pathOf target)
      | .printer => .memoryCursor [])
    fileNum includeHidden true detection

/-- One event. -/
def step (r : Remote) : RemoteEvent → Remote
  | .directReceive enabled request => (r.handleDirectDownloadRequest H enabled request).2
  | .dir id windowsPeer entries => r.dir H id (dirEntries H windowsPeer entries)
  | .digest resumable modified digest => r.digest H resumable modified digest
  | .block enabled block => r.block H enabled block
  | .done enabled id => r.done H enabled id
  | .error id => r.error H id
  | .cancel id => r.cancel H id
  | .sendFiles id type path target fileNum includeHidden detection =>
    { r with writeJobs :=
        r.writeJobs ++ [newWriteFor H id type path target fileNum includeHidden detection] }
  | .addJob id type path target fileNum includeHidden detection =>
    { r with writeJobs := r.writeJobs ++
        [{ TransferJob.newWrite id type path (.filePath (H.pathOf target)) fileNum
            includeHidden true detection with isLastJob := true }] }
  | .resumeJob id =>
    { r with
      writeJobs := TransferJob.updateJob id
        (fun job => { job with isLastJob := false, isResume := true }) r.writeJobs }
  | .confirmOverride id fileNum needOverride remember isUpload =>
    r.confirmOverride H id fileNum needOverride remember isUpload
  | .cancelJob id => r.cancelTransferJob H id
  | .reading e =>
    { r with readJobs := (TransferJob.readStep H.platform { jobs := r.readJobs } e).jobs }
  | .disconnect => r.disconnect H

end Remote

end MDesk
