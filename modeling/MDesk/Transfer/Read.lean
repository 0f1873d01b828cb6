import MDesk.Transfer.Manifest

/-!
# The sending side of a transfer job

`TransferJob::read` with the opening of the source files, the digests exchanged when a
file may be overwritten, and the answers of the peer to them. A direct job binds every
source file it opens to the identity its manifest recorded.
-/

namespace MDesk

open MDesk.Core

/-- `DirectTransferManifest`. -/
structure DirectTransferManifest where
  rootName : String
  isDirectory : Bool
  files : List FileEntry
  emptyDirs : List String
  totalSize : Nat
  sourceIdentities : List DirectSourceIdentity
  deriving DecidableEq, Repr

/-- `get_ext`. -/
def getExt (name : String) : String :=
  if '.' ∈ name.toList then
    String.ofList (name.toList.reverse.takeWhile (· ≠ '.')).reverse
  else ""

/-- `is_compressed_file`. -/
def isCompressedFile (name : String) : Bool :=
  ["xz", "gz", "zip", "7z", "rar", "bz2", "tgz", "png", "jpg"].contains (getExt name)

variable (P : Platform)

/-- `open_file_for_read`. Unix opens a directory, reading it fails later. -/
def openFileForRead (fs : Fs) (path : PathBuf) : Except Core.FsError Unit :=
  match fs.symlinkMetadata path with
  | .error e => .error e
  | .ok .dir => if P.windows then .error .isADirectory else .ok ()
  | .ok (.file _) => .ok ()

/-- `direct_source_identity` of an opened regular file. -/
def directSourceIdentity (path : PathBuf) (size : Nat) : DirectSourceIdentity :=
  if P.windows then { P.fileInformation path with fileSize := size } else { fileSize := size }

/-- The walk of `validate_direct_source_file` over the components of a name. -/
def walkSource (fs : Fs) (current : PathBuf) : List String → Except String Unit
  | [] => .ok ()
  | component :: components =>
    match fs.symlinkMetadata (current ++ [component]) with
    | .error e => .error e.message
    | .ok _ => walkSource fs (current ++ [component]) components

/-- `validate_direct_source_file`. Without links every path is canonical. -/
def validateDirectSourceFile (fs : Fs) (base : PathBuf) (name : String) : Except String PathBuf :=
  match fs.symlinkMetadata base with
  | .error e => .error e.message
  | .ok _ =>
    if name.isEmpty then regular base
    else
      match directRelativeComponents name with
      | .error e => .error e
      | .ok components =>
        match walkSource fs base components with
        | .error e => .error e
        | .ok () =>
          match regular (base ++ components) with
          | .error e => .error e
          | .ok source =>
            if base.isPrefixOf source then .ok source
            else .error "direct transfer source escaped its selected root"
where
  regular (source : PathBuf) : Except String PathBuf :=
    match fs.symlinkMetadata source with
    | .error e => .error e.message
    | .ok .dir => .error "direct transfer source is no longer a regular file"
    | .ok (.file _) => .ok source

/-- The size of a buffer of `read`. -/
def readBufSize : Nat := 128 * 1024

/-- Reading from a stream until the buffer is full or the stream ends. -/
def DataStream.fill (fs : Fs) : DataStream → Except Core.FsError (Bytes × DataStream)
  | .fileStream path pos .read =>
    match fs.lookup path with
    | none => .error .notFound
    | some .dir => .error .isADirectory
    | some (.file contents) =>
      let data := (contents.drop pos).take readBufSize
      .ok (data, .fileStream path (pos + data.length) .read)
  | .fileStream _ _ .write => .error .badHandle
  | .bufStream contents pos =>
    let data := (contents.drop pos).take readBufSize
    .ok (data, .bufStream contents (pos + data.length))

namespace TransferJob

/-- `new_direct_read`. -/
def newDirectRead (id : Int) (source : PathBuf) (manifest : DirectTransferManifest) :
    Except String TransferJob :=
  match validateDirectTransferLayout P manifest.rootName manifest.isDirectory manifest.files
      manifest.emptyDirs manifest.totalSize with
  | .error e => .error e
  | .ok () =>
    if manifest.sourceIdentities.length ≠ manifest.files.length ∨
        ((manifest.sourceIdentities.zip manifest.files).any fun e => e.1.fileSize ≠ e.2.size) then
      .error "direct transfer source snapshot is inconsistent"
    else .ok {
      id
      type := .generic
      remote := "Downloads"
      dataSource := .filePath source
      fileNum := 0
      showHidden := true
      isRemote := true
      files := manifest.files
      totalSize := manifest.totalSize
      enableOverwriteDetection := false
      strictDirectTransfer := true
      directSourceIdentities := manifest.sourceIdentities }

/-- A direct source that changed ends the job. -/
def abandoned (job : TransferJob) (e : String) : TransferJob :=
  { job with
    transferError := some e
    fileNum := wrapI32 job.files.length
    fileConfirmed := false
    fileIsWaiting := false }

/-- A source that cannot be opened, or not be read on, is given up. -/
def nextFile (job : TransferJob) : TransferJob :=
  { job with
    fileNum := wrapI32 (job.fileNum + 1)
    fileConfirmed := false
    fileIsWaiting := false }

/-- The path of the source of an entry; a direct job checks it. -/
def sourceFor (job : TransferJob) (fs : Fs) (base : PathBuf) (entry : FileEntry) :
    Except String PathBuf :=
  if job.strictDirectTransfer then validateDirectSourceFile fs base entry.name
  else .ok (P.join base entry.name)

/-- The checks a direct job makes on a source it has opened. -/
def validateOpened (job : TransferJob) (fs : Fs) (base path : PathBuf) (entry : FileEntry) :
    Except String Unit :=
  if job.strictDirectTransfer then
    match validateDirectSourceFile fs base entry.name with
    | .error e => .error e
    | .ok _ =>
      match fs.symlinkMetadata path with
      | .error e => .error e.message
      | .ok .dir => .error "direct transfer source is no longer a regular file"
      | .ok (.file contents) =>
        match job.directSourceIdentities[asUsize job.fileNum]? with
        | none => .error "direct transfer source identity is missing"
        | some expected =>
          if directSourceIdentity P path contents.length ≠ expected then
            .error "direct transfer source identity changed"
          else .ok ()
  else .ok ()

/-- `open_data_stream`: `true` when no file is left. -/
def openDataStream (job : TransferJob) (fs : Fs) : Except String Bool × TransferJob :=
  match job.dataSource with
  | .filePath base =>
    match job.files[asUsize job.fileNum]? with
    | none => (.ok true, { job with dataStream := none })
    | some entry =>
      if job.dataStream.isSome then (.ok false, job)
      else
        match job.sourceFor P fs base entry with
        | .error e => (.error e, job.abandoned e)
        | .ok path =>
          match openFileForRead P fs path with
          | .error e =>
            (.error e.message, { job.nextFile with transferError := some e.message })
          | .ok () =>
            match job.validateOpened P fs base path entry with
            | .error e => (.error e, job.abandoned e)
            | .ok () =>
              (.ok false, { job with
                dataStream := some (.fileStream path 0 .read)
                fileConfirmed := false
                fileIsWaiting := false })
  | .memoryCursor contents =>
    if job.dataStream.isSome then (.ok false, job)
    else (.ok false, { job with
      dataSource := .memoryCursor []
      dataStream := some (.bufStream contents 0) })

/-- The name `read` looks at, `none` when no file is left. -/
def readName (job : TransferJob) : Option String :=
  match job.dataSource with
  | .filePath base =>
    match job.files[asUsize job.fileNum]? with
    | none => none
    | some entry =>
      some (if job.files.length = 1 ∧ entry.name.isEmpty then base.getLast?.getD "" else entry.name)
  | .memoryCursor _ => some ""

/-- What goes on the wire for a buffer: its compressed form where that is shorter. -/
def wireData (job : TransferJob) (name : String) (data : Bytes) : Bytes × Bool :=
  if job.dataSource.isFilePath ∧ ¬ isCompressedFile name ∧
      (P.compress data).length < data.length then (P.compress data, true)
  else (data, false)

/-- The block of a read, with the file number it started with. -/
def blockFor (job : TransferJob) (data : Bytes) (compressed : Bool) : FileTransferBlock :=
  { id := job.id, fileNum := wrapI32 (asUsize job.fileNum), data, compressed }

/-- `read`. -/
def read (job : TransferJob) (fs : Fs) : Except String (Option FileTransferBlock) × TransferJob :=
  if job.type = .generic ∧ job.enableOverwriteDetection ∧ ¬ job.fileConfirmed then (.ok none, job)
  else
    match job.readName with
    | none => (.ok none, { job with dataStream := none })
    | some name =>
      match job.dataStream with
      | none => (.error "data stream is None", job)
      | some stream =>
        match stream.fill fs with
        | .error e =>
          (.error e.message,
            { job.nextFile with transferError := some e.message, dataStream := none })
        | .ok ([], _) =>
          if job.dataSource.isFilePath then
            (.ok (some (job.blockFor [] false)), { job.nextFile with dataStream := none })
          else (.ok none, { job with dataStream := none })
        | .ok (byte :: bytes, stream) =>
          let (wire, compressed) := job.wireData P name (byte :: bytes)
          (.ok (some (job.blockFor wire compressed)), { job with
            dataStream := some stream
            finishedSize := (job.finishedSize + (byte :: bytes).length) % 2 ^ 64
            transferred := (job.transferred + wire.length) % 2 ^ 64 })

/-- What the operating system tells about the modification time of a path: the seconds
since the epoch, nothing for an earlier or unknown time. -/
abbrev Modified := PathBuf → Option Nat

/-- `get_current_digest`: the modification time and the length of the open file. -/
def getCurrentDigest (job : TransferJob) (fs : Fs) (modified : Modified) :
    Except String (Nat × Nat) :=
  match job.dataStream with
  | none => .error "file is None"
  | some (.bufStream _ _) => .error "No digest for buf stream"
  | some (.fileStream path _ _) =>
    match fs.symlinkMetadata path with
    | .error e => .error e.message
    | .ok node =>
      match modified path with
      | none => .error "second time provided was later than self"
      | some seconds =>
        .ok (seconds, match node with
          | .file contents => contents.length
          | .dir => 0)

/-- The messages a reading job sends. -/
inductive FileResponse where
  | block (block : FileTransferBlock)
  | digest (id fileNum : Int) (lastModified fileSize : Nat) (isResume : Bool)
  | error (id : Int) (error : String) (fileNum : Int)
  | done (id fileNum : Int)
  deriving DecidableEq, Repr

/-- `init_data_stream`, with the digest it sends. -/
def initDataStream (job : TransferJob) (fs : Fs) (modified : Modified) :
    Except String (List FileResponse) × TransferJob :=
  match job.openDataStream P fs with
  | (.error e, job) => (.error e, job)
  | (.ok true, job) => (.ok [], job)
  | (.ok false, job) =>
    if job.type = .generic ∧ job.enableOverwriteDetection ∧ ¬ job.fileConfirmed ∧
        ¬ job.fileIsWaiting then
      match job.getCurrentDigest fs modified with
      | .error e => (.error e, job)
      | .ok (lastModified, fileSize) =>
        (.ok [.digest job.id job.fileNum lastModified fileSize job.isResume],
          { job with fileIsWaiting := true })
    else (.ok [], job)

/-- `set_file_confirmed`. -/
def setFileConfirmed (job : TransferJob) (confirmed : Bool) : TransferJob :=
  { job with fileConfirmed := confirmed, fileSkipped := false }

/-- `set_file_skipped`. -/
def setFileSkipped (job : TransferJob) : TransferJob :=
  { job.nextFile with auditHadSkippedFile := true, dataStream := none, fileSkipped := true }

/-- `resolve_entry_path`. -/
def resolveEntryPath (job : TransferJob) (fs : Fs) (base : PathBuf) (name : String) :
    Option PathBuf :=
  match job.type with
  | .printer => some (P.join base name)
  | .generic => (joinValidatedPath P fs base name).toOption

/-- The handle `set_stream_offset` seeks: the staging file where both side files are
there, else the file itself. -/
def offsetStream (fs : Fs) (path : PathBuf) (offset : Nat) : Option DataStream :=
  if fs.pathExists (downloadPath path) ∧ fs.pathExists (digestPath path) then
    match fs.openWrite (downloadPath path) with
    | .error _ => none
    | .ok () => some (.fileStream (downloadPath path) offset .write)
  else if fs.pathExists path then
    match openFileForRead P fs path with
    | .error _ => none
    | .ok () => some (.fileStream path offset .read)
  else none

/-- `set_stream_offset`. An index out of range, where the source panics, leaves the job. -/
def setStreamOffset (job : TransferJob) (fs : Fs) (fileNum offset : Nat) : TransferJob :=
  match job.dataSource, job.files[fileNum]? with
  | .filePath base, some entry =>
    match job.resolveEntryPath P fs base entry.name with
    | none => job
    | some path =>
      match offsetStream P fs path offset with
      | none => job
      | some stream => { job with
          dataStream := some stream
          transferred := (job.transferred + offset) % 2 ^ 64
          finishedSize := (job.finishedSize + offset) % 2 ^ 64 }
  | _, _ => job

/-- `file_transfer_send_confirm_request::Union`. -/
inductive ConfirmUnion where
  | skip (skip : Bool)
  | offsetBlk (offset : Nat)
  deriving DecidableEq, Repr

/-- `FileTransferSendConfirmRequest`. -/
structure FileTransferSendConfirmRequest where
  id : Int
  fileNum : Int
  union : Option ConfirmUnion := none
  deriving DecidableEq, Repr

/-- `confirm`. -/
def confirm (job : TransferJob) (fs : Fs) (r : FileTransferSendConfirmRequest) : TransferJob :=
  if job.fileNum ≠ r.fileNum then job
  else
    match r.union with
    | some (.skip true) => job.setFileSkipped
    | some (.skip false) => job.setFileConfirmed true
    | some (.offsetBlk offset) =>
      if 0 < offset then
        (job.setFileConfirmed true).setStreamOffset P fs (asUsize r.fileNum) offset
      else job.setFileConfirmed true
    | none => job

/-- `job_completed`. -/
def jobCompleted (job : TransferJob) : Bool :=
  !job.enableOverwriteDetection || (!job.fileConfirmed && !job.fileIsWaiting)

/-- `job_error`. -/
def jobError (job : TransferJob) : Option String :=
  if job.fileSkipped ∧ job.files.length = 1 then some "skipped" else job.transferError

/-- `audit_error`. -/
def auditError (job : TransferJob) : Option String :=
  if job.auditHadSkippedFile then some "one or more files were skipped" else job.transferError

end TransferJob

end MDesk
