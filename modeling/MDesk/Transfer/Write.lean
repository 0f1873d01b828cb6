import MDesk.Transfer.Job

/-!
# The receiving side of a transfer job

`TransferJob::write`, its finalisation and the clean-up of an abandoned file. A block
is decoded, checked against the bookkeeping of a strict job, directed to the staging
file of its entry and appended there; staging files take their final names when the
job moves on. A failing step keeps the changes made before the failure.
-/

namespace MDesk

open MDesk.Core

/-- `DIRECT_TRANSFER_MAX_BLOCK_BYTES`. -/
def directTransferMaxBlockBytes : Nat := 128 * 1024

/-- What a fallible step leaves behind. -/
structure Outcome where
  result : Except String Unit
  job : TransferJob
  fs : Fs

namespace Outcome

def ok (job : TransferJob) (fs : Fs) : Outcome := ⟨.ok (), job, fs⟩

def fail (e : String) (job : TransferJob) (fs : Fs) : Outcome := ⟨.error e, job, fs⟩

@[simp] theorem ok_job (job : TransferJob) (fs : Fs) : (ok job fs).job = job := rfl

@[simp] theorem ok_fs (job : TransferJob) (fs : Fs) : (ok job fs).fs = fs := rfl

/-- The `?` operator: go on after a success only. -/
def andThen (o : Outcome) (k : TransferJob → Fs → Outcome) : Outcome :=
  match o.result with
  | .ok () => k o.job o.fs
  | .error _ => o

@[simp] theorem ok_andThen (job : TransferJob) (fs : Fs) (k : TransferJob → Fs → Outcome) :
    (ok job fs).andThen k = k job fs := rfl

@[simp] theorem fail_andThen (e : String) (job : TransferJob) (fs : Fs)
    (k : TransferJob → Fs → Outcome) : (fail e job fs).andThen k = fail e job fs := rfl

/-- A sequence succeeds if both steps do. -/
theorem andThen_ok {o : Outcome} {k : TransferJob → Fs → Outcome}
    (h : (o.andThen k).result = .ok ()) : o.result = .ok () ∧ o.andThen k = k o.job o.fs := by
  unfold andThen at h ⊢
  cases hr : o.result with
  | ok u => exact ⟨rfl, rfl⟩
  | error e =>
    rw [hr] at h
    exact absurd (hr.symm.trans h) nofun

/-- What both steps keep, the sequence keeps. -/
theorem andThen_keeps {Q : TransferJob → Fs → Prop} {o : Outcome}
    {k : TransferJob → Fs → Outcome} (ho : Q o.job o.fs)
    (hk : ∀ job fs, Q job fs → Q (k job fs).job (k job fs).fs) :
    Q (o.andThen k).job (o.andThen k).fs := by
  unfold andThen
  cases o.result with
  | ok u => exact hk o.job o.fs ho
  | error e => exact ho

end Outcome

namespace TransferJob

variable (P : Platform)

/-- `decompress_direct_transfer_block`. -/
def decompressDirectTransferBlock (data : Bytes) (limit : Nat) : Except String Bytes :=
  match P.decodeAll data with
  | none => .error "malformed frame"
  | some output =>
    if limit < output.length then .error "direct transfer block exceeds declared size"
    else .ok output

/-- The checks `write` makes first, and the decoding of the block. -/
def decodeBlock (job : TransferJob) (block : FileTransferBlock) : Except String Bytes :=
  if block.id ≠ job.id then .error "Wrong id"
  else if block.fileNum < 0 then .error "Wrong file number"
  else if job.dataSource.isFilePath ∧ job.files.length ≤ block.fileNum.toNat then
    .error "Wrong file number"
  else if job.strictDirectTransfer ∧ directTransferMaxBlockBytes < block.data.length then
    .error "direct transfer wire block exceeds protocol limit"
  else if block.compressed then
    if job.strictDirectTransfer then
      let received := if block.fileNum = job.fileNum then job.directCurrentFileBytes else 0
      decompressDirectTransferBlock P block.data
        (min (job.sizeAt block.fileNum.toNat - received) directTransferMaxBlockBytes)
    else .ok (P.decompress block.data)
  else .ok block.data

/-- What a decoded block satisfies. -/
theorem of_decodeBlock {base : PathBuf} {job : TransferJob}
    (hsource : job.dataSource = .filePath base)
    {block : FileTransferBlock} {data : Bytes} (h : job.decodeBlock P block = .ok data) :
    block.id = job.id ∧ 0 ≤ block.fileNum ∧ block.fileNum.toNat < job.files.length := by
  unfold decodeBlock at h
  split_ifs at h with hid hneg hrange
  all_goals
    refine ⟨not_not.mp hid, by omega, ?_⟩
    rw [hsource] at hrange
    simp only [DataSource.isFilePath, true_and] at hrange
    omega

/-- The file number of a strict job stays or moves on to the next file, once the
current one is complete. -/
def advanceDirectFile (job : TransferJob) (fileNum : Int) : Except String TransferJob :=
  if fileNum < job.fileNum then .error "direct transfer file number moved backwards"
  else if job.fileNum < fileNum then
    if fileNum ≠ saturatingAddI32 job.fileNum 1 ∨ job.dataStream.isNone ∨
        ¬ job.directCurrentFileEofSeen ∨
        job.directCurrentFileBytes ≠ job.sizeAt (asUsize job.fileNum) then
      .error "direct transfer file sequence is incomplete"
    else .ok { job with directCurrentFileBytes := 0, directCurrentFileEofSeen := false }
  else .ok job

/-- Add `len` decoded bytes to file `fileNum` within the declared sizes. -/
def addDirectBytes (job : TransferJob) (fs : Fs) (fileNum len : Nat) : Outcome :=
  if 2 ^ 64 ≤ job.directCurrentFileBytes + len then
    .fail "direct transfer file size overflow" job fs
  else if job.sizeAt fileNum < job.directCurrentFileBytes + len then
    .fail "direct transfer exceeds declared file size" job fs
  else if 2 ^ 64 ≤ job.finishedSize + len then
    .fail "direct transfer total size overflow" job fs
  else if job.totalSize < job.finishedSize + len then
    .fail "direct transfer exceeds declared total size" job fs
  else .ok { job with directCurrentFileBytes := job.directCurrentFileBytes + len } fs

/-- The length the next block of file `fileNum` must have, zero at its end. -/
def expectedBlockSize (job : TransferJob) (fileNum : Nat) : Nat :=
  min (job.sizeAt fileNum - job.directCurrentFileBytes) directTransferMaxBlockBytes

/-- The strict accounting of a block of `len` decoded bytes for file `fileNum`. -/
def countDirectBlock (job : TransferJob) (fs : Fs) (fileNum len : Nat) : Outcome :=
  if job.sizeAt fileNum < job.directCurrentFileBytes then
    .fail "direct transfer file size underflow" job fs
  else if job.expectedBlockSize fileNum = 0 then
    if len ≠ 0 ∨ job.directCurrentFileEofSeen then
      .fail "direct transfer emitted an invalid or duplicate EOF block" job fs
    else addDirectBytes { job with directCurrentFileEofSeen := true } fs fileNum len
  else if job.directCurrentFileEofSeen ∨ len ≠ job.expectedBlockSize fileNum then
    .fail "direct transfer block does not match declared chunk size" job fs
  else job.addDirectBytes fs fileNum len

/-- What a strict job checks before it touches a file. The bookkeeping it has updated
stays updated when the block is refused later. -/
def admitBlock (job : TransferJob) (fs : Fs) (block : FileTransferBlock) (data : Bytes) :
    Outcome :=
  if job.strictDirectTransfer then
    if directTransferMaxBlockBytes < data.length then
      .fail "direct transfer block exceeds protocol limit" job fs
    else
      match job.advanceDirectFile block.fileNum with
      | .error e => .fail e job fs
      | .ok job => job.countDirectBlock fs block.fileNum.toNat data.length
  else .ok job fs

/-- `finalize_current_file`. -/
def finalizeCurrentFile (job : TransferJob) (fs : Fs) : Except String Unit × Fs :=
  match job.type, job.dataSource with
  | .generic, .filePath base =>
    match job.files[asUsize job.fileNum]? with
    | none => (.ok (), fs)
    | some entry =>
      match joinValidatedPath P fs base entry.name with
      | .error _ => (.error "invalid destination path", fs)
      | .ok path =>
        let fs := (fs.removeFile (digestPath path)).toOption.getD fs
        if job.neverOverwriteDestination ∧ fs.pathExists path then
          (.error "direct transfer destination already exists", fs)
        else
          match fs.rename (downloadPath path) path with
          | .error e => (.error e.message, fs)
          | .ok fs => (.ok (), fs)
  | _, _ => (.ok (), fs)

/-- `finalize_write`. -/
def finalizeWrite (job : TransferJob) (fs : Fs) : Outcome :=
  if job.dataStream.isNone ∨ job.type = .printer then .ok job fs
  else
    let job := { job with dataStream := none }
    let (result, fs) := job.finalizeCurrentFile P fs
    ⟨result, job, fs⟩

/-- Start the staging file of an entry, with the digest of the job beside it. -/
def createStaging (job : TransferJob) (fs : Fs) (path : PathBuf) : Outcome :=
  let fs := (fs.createDirAll path.dropLast).toOption.getD fs
  let cleared := if fs.pathExists (digestPath path) then fs.removeFile (digestPath path) else .ok fs
  match cleared with
  | .error e => .fail e.message job fs
  | .ok fs =>
    match fs.create (downloadPath path) with
    | .error e => .fail e.message job fs
    | .ok fs =>
      let job := { job with dataStream := some (.fileStream (downloadPath path) 0 .write) }
      match fs.create (digestPath path) with
      | .error _ => .ok job fs
      | .ok fs => .ok job (fs.insert (digestPath path) (.file job.digest.toJson))

/-- The part of `write` that opens the file of entry `fileNum`. -/
def openEntry (job : TransferJob) (fs : Fs) (base : PathBuf) (fileNum : Int) : Outcome :=
  let job := { job with fileNum }
  match job.type with
  | .printer =>
    match fs.create base with
    | .error e => .fail e.message job fs
    | .ok fs => .ok { job with dataStream := some (.fileStream base 0 .write) } fs
  | .generic =>
    match joinValidatedPath P fs base ((job.files[asUsize fileNum]?.map (·.name)).getD "") with
    | .error e => .fail e job fs
    | .ok path => job.createStaging fs path

/-- The part of `write` that directs the job to the file of the block. -/
def openForBlock (job : TransferJob) (fs : Fs) (block : FileTransferBlock) : Outcome :=
  match job.dataSource with
  | .filePath base =>
    if block.fileNum.toNat ≠ asUsize job.fileNum ∨ job.dataStream.isNone then
      (job.finalizeWrite P fs).andThen fun job fs => job.openEntry P fs base block.fileNum
    else .ok job fs
  | .memoryCursor contents =>
    match job.dataStream with
    | none => .ok { job with dataStream := some (.bufStream contents 0) } fs
    | some _ => .ok job fs

/-- The job once a block has been written to its stream: the progress counters wrap. -/
def counted (job : TransferJob) (stream : DataStream) (block : FileTransferBlock)
    (data : Bytes) : TransferJob :=
  { job with
    dataStream := some stream
    finishedSize := (job.finishedSize + data.length) % 2 ^ 64
    transferred := (job.transferred + block.data.length) % 2 ^ 64 }

/-- `write_all` on the stream of the job, and the progress counters. -/
def appendBlock (job : TransferJob) (fs : Fs) (block : FileTransferBlock) (data : Bytes) :
    Outcome :=
  match job.dataStream with
  | none => .fail "file is None" job fs
  | some (.fileStream _ _ .read) => .fail Core.FsError.badHandle.message job fs
  | some (.fileStream path pos .write) =>
    .ok (job.counted (.fileStream path (pos + data.length) .write) block data)
      (fs.writeAt 0 path pos data)
  | some (.bufStream contents pos) =>
    .ok (job.counted (.bufStream
      (contents.take pos ++ List.replicate (pos - contents.length) 0 ++ data ++
        contents.drop (pos + data.length)) (pos + data.length)) block data) fs

/-- `write`. -/
def write (job : TransferJob) (fs : Fs) (block : FileTransferBlock) : Outcome :=
  match job.decodeBlock P block with
  | .error e => .fail e job fs
  | .ok data =>
    (job.admitBlock fs block data).andThen fun job fs =>
    (job.openForBlock P fs block).andThen fun job fs =>
    job.appendBlock fs block data

/-- Create a file, or open the one that is there. -/
def createNewOrOpen (fs : Fs) (p : PathBuf) : Except Core.FsError Fs :=
  match fs.createNew p with
  | .ok fs => .ok fs
  | .error .alreadyExists =>
    match fs.openWrite p with
    | .ok () => .ok fs
    | .error e => .error e
  | .error e => .error e

/-- One entry of the last pass of `finalize_direct_write`: a missing empty file is
made from its staging file, then the file must be there with its declared size. -/
def settleEntry (job : TransferJob) (fs : Fs) (base : PathBuf) (entry : FileEntry) :
    Except String Unit × Fs :=
  match joinValidatedPath P fs base entry.name with
  | .error e => (.error e, fs)
  | .ok path =>
    if entry.size = 0 ∧ ¬ fs.pathExists path then
      match fs.createDirAll path.dropLast with
      | .error e => (.error e.message, fs)
      | .ok fs =>
        match createNewOrOpen fs (downloadPath path) with
        | .error e => (.error e.message, fs)
        | .ok fs =>
          if job.neverOverwriteDestination ∧ fs.pathExists path then
            (.error "direct transfer destination already exists", fs)
          else
            match fs.rename (downloadPath path) path with
            | .error e => (.error e.message, fs)
            | .ok fs => checkEntry fs path
    else checkEntry fs path
where
  checkEntry (fs : Fs) (path : PathBuf) : Except String Unit × Fs :=
    match fs.symlinkMetadata path with
    | .error e => (.error e.message, fs)
    | .ok .dir => (.error "direct transfer destination is not a regular file", fs)
    | .ok (.file contents) =>
      if contents.length ≠ entry.size then (.error "direct transfer file size mismatch", fs)
      else (.ok (), fs)

/-- The last pass of `finalize_direct_write`. -/
def settleEntries (job : TransferJob) (base : PathBuf) (fs : Fs) :
    List FileEntry → Except String Unit × Fs
  | [] => (.ok (), fs)
  | entry :: entries =>
    match job.settleEntry P fs base entry with
    | (.error e, fs) => (.error e, fs)
    | (.ok (), fs) => job.settleEntries base fs entries

/-- The file of the job has received what was declared. A number outside the list
asks for nothing. -/
def currentFileEnded (job : TransferJob) : Bool :=
  if job.fileNum < 0 then true
  else
    match job.files[job.fileNum.toNat]? with
    | none => true
    | some entry => job.directCurrentFileBytes = entry.size ∧ job.directCurrentFileEofSeen

/-- The part of `finalize_direct_write` behind the finalisation of the current file:
every declared file is verified. -/
def verifyDirectFiles (job : TransferJob) (fs : Fs) : Outcome :=
  if job.finishedSize ≠ job.totalSize then
    .fail "direct transfer ended before declared total size" job fs
  else
    match job.dataSource with
    | .memoryCursor _ => .fail "direct transfer requires a filesystem destination" job fs
    | .filePath base =>
      let (result, fs) := job.settleEntries P base fs job.files
      ⟨result, job, fs⟩

/-- `finalize_direct_write`. -/
def finalizeDirectWrite (job : TransferJob) (fs : Fs) : Outcome :=
  if job.currentFileEnded then
    (job.finalizeWrite P fs).andThen fun job fs => job.verifyDirectFiles P fs
  else .fail "direct transfer file ended before declared size" job fs

/-- `remove_download_file`. -/
def removeDownloadFile (job : TransferJob) (fs : Fs) : Fs :=
  match job.type, job.dataSource with
  | .generic, .filePath base =>
    match job.files[asUsize job.fileNum]? with
    | none => fs
    | some entry =>
      match joinValidatedPath P fs base entry.name with
      | .error _ => fs
      | .ok path =>
        let fs := (fs.removeFile (downloadPath path)).toOption.getD fs
        (fs.removeFile (digestPath path)).toOption.getD fs
  | _, _ => fs

end TransferJob

end MDesk
