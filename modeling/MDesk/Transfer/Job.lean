import MDesk.Core.FileSystem
import MDesk.Core.MachineInt
import MDesk.Transfer.Path

/-!
# Transfer jobs

The `TransferJob` of `hbb_common::fs` with its constructors and the name checks every
job applies to the files of its peer. One structure serves both directions, as in the
source: a write job stores received blocks, a read job produces them.
-/

namespace MDesk

open MDesk.Core

/-- The file system a job works on. -/
abbrev Fs := Core.FileSystem String UInt8

/-- The text of an operating-system error. -/
def Core.FsError.message : Core.FsError → String
  | .notFound => "No such file or directory"
  | .alreadyExists => "File exists"
  | .notADirectory => "Not a directory"
  | .isADirectory => "Is a directory"
  | .notEmpty => "Directory not empty"
  | .badHandle => "Bad file descriptor"

inductive FileType where
  | dir
  | dirLink
  | dirDrive
  | file
  | fileLink
  deriving DecidableEq, Repr

/-- A `FileEntry` message; `entryType` is `none` for an unknown enumeration number. -/
structure FileEntry where
  entryType : Option FileType := some .dir
  name : String := ""
  size : Nat := 0
  modifiedTime : Nat := 0
  deriving DecidableEq, Repr

inductive JobType where
  | generic
  | printer
  deriving DecidableEq, Repr

inductive DataSource where
  | filePath (p : PathBuf)
  | memoryCursor (contents : Bytes)
  deriving DecidableEq, Repr

def DataSource.isFilePath : DataSource → Bool
  | .filePath _ => true
  | .memoryCursor _ => false

inductive OpenMode where
  | read
  | write
  deriving DecidableEq, Repr

/-- An open stream with its position. -/
inductive DataStream where
  | fileStream (path : PathBuf) (pos : Nat) (mode : OpenMode)
  | bufStream (contents : Bytes) (pos : Nat)
  deriving DecidableEq, Repr

structure FileDigest where
  size : Nat := 0
  modified : Nat := 0
  deriving DecidableEq, Repr

/-- `json!(self.digest).to_string()`. -/
def FileDigest.toJson (d : FileDigest) : Bytes :=
  ("\x7b\"modified\":" ++ toString d.modified ++ ",\"size\":" ++ toString d.size ++
    "\x7d").toUTF8.toList

structure TransferJob where
  id : Int := 0
  type : JobType := .generic
  remote : String := ""
  dataSource : DataSource := .filePath []
  showHidden : Bool := false
  isRemote : Bool := false
  isLastJob : Bool := false
  isResume : Bool := false
  fileNum : Int := 0
  files : List FileEntry := []
  dataStream : Option DataStream := none
  totalSize : Nat := 0
  finishedSize : Nat := 0
  transferred : Nat := 0
  enableOverwriteDetection : Bool := false
  fileConfirmed : Bool := false
  fileSkipped : Bool := false
  fileIsWaiting : Bool := false
  defaultOverwriteStrategy : Option Bool := none
  digest : FileDigest := {}
  transferError : Option String := none
  auditHadSkippedFile : Bool := false
  neverOverwriteDestination : Bool := false
  strictDirectTransfer : Bool := false
  directCurrentFileBytes : Nat := 0
  directCurrentFileEofSeen : Bool := false
  directSourceIdentities : List DirectSourceIdentity := []
  deriving DecidableEq, Repr

/-- `FileTransferBlock`. -/
structure FileTransferBlock where
  id : Int
  fileNum : Int
  data : Bytes
  compressed : Bool := false
  deriving DecidableEq, Repr

section Names

variable (P : Platform)

/-- A drive letter and a colon. -/
def hasDrivePrefix (name : String) : Bool :=
  match name.toList with
  | letter :: ':' :: _ => letter.isAlpha
  | _ => false

/-- `validate_file_name_no_traversal`. -/
def validateFileNameNoTraversal (name : String) : Except String Unit :=
  if name.toList.contains '\x00' then .error "file name contains null bytes"
  else if (splitStr P.isSeparator name).contains ".." then
    .error "path traversal detected in file name"
  else if P.windows ∧ hasDrivePrefix name then .error "absolute path detected in file name"
  else if name.toList.head?.any P.isSeparator then .error "absolute path detected in file name"
  else .ok ()

/-- `validate_transfer_file_names`. -/
def validateTransferFileNames (files : List FileEntry) : Except String Unit :=
  if files.length = 1 ∧ (files.head?.any fun f => f.name.isEmpty) then .ok ()
  else go files
where
  go : List FileEntry → Except String Unit
  | [] => .ok ()
  | file :: files =>
    if file.name.isEmpty then .error "empty file name in multi-file transfer"
    else
      match validateFileNameNoTraversal P file.name with
      | .error e => .error e
      | .ok () => go files

/-- The component walk of `validate_no_symlink_components`. A file system without links
only stops it at a component below a file, which Windows reports as not found. -/
def validateComponents (fs : Fs) (current : PathBuf) : List String → Except String Unit
  | [] => .ok ()
  | component :: components =>
    if component = "" ∨ component = "." then validateComponents fs current components
    else if component = ".." then .error "invalid file name component"
    else
      match fs.symlinkMetadata (current ++ [component]) with
      | .error .notADirectory =>
        if P.windows then validateComponents fs (current ++ [component]) components
        else
          .error ("failed to validate path component '/" ++ joinSlash (current ++ [component]) ++
            "': " ++ Core.FsError.notADirectory.message)
      | _ => validateComponents fs (current ++ [component]) components

/-- `validate_no_symlink_components`. -/
def validateNoSymlinkComponents (fs : Fs) (base : PathBuf) (name : String) : Except String Unit :=
  if name.isEmpty then .ok ()
  else if (name.toList.head?.any P.isSeparator) then .error "invalid file name component"
  else validateComponents P fs base (splitStr P.isSeparator name)

/-- `join_validated_path`. -/
def joinValidatedPath (fs : Fs) (base : PathBuf) (name : String) : Except String PathBuf :=
  match validateFileNameNoTraversal P name with
  | .error e => .error e
  | .ok () =>
    match validateNoSymlinkComponents P fs base name with
    | .error e => .error e
    | .ok () => .ok (P.join base name)

end Names

/-- The declared size of entry `n`, in range or zero. -/
def declaredSize (files : List FileEntry) (n : Nat) : Nat := (files[n]?.map (·.size)).getD 0

namespace TransferJob

variable (P : Platform)

def newWrite (id : Int) (type : JobType) (remote : String) (dataSource : DataSource)
    (fileNum : Int) (showHidden isRemote enableOverwriteDetection : Bool) : TransferJob :=
  { id, type, remote, dataSource, fileNum, showHidden, isRemote, enableOverwriteDetection }

/-- `set_files`. The sum of the announced sizes wraps. -/
def setFiles (job : TransferJob) (fs : Fs) (files : List FileEntry) : Except String TransferJob :=
  match validateTransferFileNames P files with
  | .error e => .error e
  | .ok () =>
    let checked :=
      match job.dataSource with
      | .filePath base => go base files
      | .memoryCursor _ => .ok ()
    match checked with
    | .error e => .error e
    | .ok () => .ok { job with totalSize := (files.map (·.size)).sum % 2 ^ 64, files }
where
  go (base : PathBuf) : List FileEntry → Except String Unit
  | [] => .ok ()
  | file :: files =>
    match validateNoSymlinkComponents P fs base file.name with
    | .error e => .error e
    | .ok () => go base files

def setDigest (job : TransferJob) (size modified : Nat) : TransferJob :=
  { job with digest := { size, modified } }

def setNeverOverwriteDestination (job : TransferJob) (enabled : Bool) : TransferJob :=
  { job with neverOverwriteDestination := enabled }

def setStrictDirectTransfer (job : TransferJob) (enabled : Bool) : TransferJob :=
  { job with strictDirectTransfer := enabled }

/-- `set_finished_size_on_resume`. -/
def setFinishedSizeOnResume (job : TransferJob) : TransferJob :=
  if job.isResume ∧ job.fileNum > 0 then
    { job with
      finishedSize := ((job.files.take (asUsize job.fileNum)).map (·.size)).sum % 2 ^ 64 }
  else job

/-- The declared size of an entry the caller has range-checked. -/
def sizeAt (job : TransferJob) (n : Nat) : Nat := declaredSize job.files n

end TransferJob

end MDesk
