import MDesk.Transfer.Digest
import MDesk.Transfer.Manifest

/-!
# The upload of the remote tool

The one upload that the connection manager executes. It is written to a staging file of
its own in the Downloads folder and takes the name of the tool once it is complete.
-/

namespace MDesk

open MDesk.Core

/-- What the connection manager takes from the host it runs on. -/
structure Host where
  platform : Platform
  /-- `dirs_next::download_dir`. -/
  downloadDir : Option PathBuf
  /-- `Config::get_home`. -/
  home : PathBuf
  /-- `std::env::temp_dir`. -/
  tempDir : PathBuf
  /-- The absolute path that a path string names. -/
  pathOf : String → PathBuf
  /-- The text of the UUID drawn for a job. -/
  uuid : Nat → String
  /-- `serde_json` reading the text of a digest file. -/
  parseDigest : Bytes → Option FileDigest

/-- `REMOTE_DROP_DOWNLOADS_PREFIX`. -/
def remoteDropDownloadsPrefix : String := "mdesk-drop-downloads:"

/-- `DEVICE_REMOTE_PREFIX`. -/
def deviceRemotePrefix : String := "mdesk-device-remote:"

/-- `DEVICE_REMOTE_TARGET`. -/
def deviceRemoteTarget : String := "mdesk-device-remote:DeviceRemote.exe"

namespace Host

variable (H : Host)

/-- `get_download_dir`. -/
def getDownloadDir : PathBuf :=
  (H.downloadDir <|> if H.home.isEmpty then none else some (H.home ++ ["Downloads"])).getD H.tempDir

/-- `get_download_dir_strict`. A missing folder is made. -/
def getDownloadDirStrict (fs : Fs) : Except String PathBuf × Fs :=
  match H.downloadDir with
  | none => (.error "Downloads folder is unavailable", fs)
  | some path =>
    if path.isEmpty then (.error "Downloads folder is unavailable", fs)
    else
      match if fs.pathExists path then .ok fs else fs.createDirAll path with
      | .error e => (.error e.message, fs)
      | .ok fs =>
        if fs.isDir path then (.ok path, fs)
        else (.error "Downloads destination is not a directory", fs)

end Host

namespace DeviceRemote

variable (H : Host)

/-- `check_target`. -/
def checkTarget (fs : Fs) (path : PathBuf) : Except String Unit :=
  match fs.symlinkMetadata path with
  | .ok (.file _) => .ok ()
  | .ok .dir => .error "DeviceRemote target is not a regular file"
  | .error .notFound => .ok ()
  | .error e => .error e.message

/-- The name of the staging file of an upload. -/
def stagingName (serial : Nat) : String := ".mdesk-device-remote-" ++ H.uuid serial ++ ".exe"

/-- `new_job`. -/
def newJob (fs : Fs) (directory : PathBuf) (serial : Nat) (id : Int) (modified size : Nat) :
    Except String TransferJob :=
  match checkTarget fs (directory ++ ["DeviceRemote.exe"]) with
  | .error e => .error e
  | .ok () =>
    match (TransferJob.newWrite id .generic "" (.filePath (directory ++ [stagingName H serial])) 0
        false false false).setFiles H.platform fs
          [{ name := "", size, modifiedTime := modified }] with
    | .error e => .error e
    | .ok job => .ok (job.setStrictDirectTransfer true)

/-- `prepare`. -/
def prepare (fs : Fs) (serial : Nat) (target : String) (id fileNum : Int)
    (files : List (String × Nat)) (size : Nat) : Except String TransferJob × Fs :=
  if ¬ H.platform.windows then (.error "DeviceRemote requires Windows", fs)
  else
    match files with
    | [(name, modified)] =>
      if target ≠ deviceRemoteTarget ∨ fileNum ≠ 0 ∨ name ≠ "" ∨ size = 0 ∨
          64 * 1024 * 1024 < size then
        (.error "Invalid DeviceRemote upload", fs)
      else
        match H.getDownloadDirStrict fs with
        | (.error e, fs) => (.error e, fs)
        | (.ok directory, fs) => (newJob H fs directory serial id modified size, fs)
    | _ => (.error "Invalid DeviceRemote upload", fs)

/-- What the operating system makes of the end of an upload: the errors of the replacement
of the tool, which may be running, and of its start. -/
structure Reaction where
  renameError : Option String := none
  spawnError : Option String := none
  deriving DecidableEq, Repr

/-- An attempt to start the tool, with the file it started. -/
structure Launch where
  serial : Nat
  contents : Option (Node UInt8)
  spawned : Bool
  deriving DecidableEq, Repr

/-- What the end of an upload leaves behind. -/
structure Finish where
  result : Except String Unit
  job : TransferJob
  fs : Fs
  launches : List Launch := []

/-- The replacement of the installed tool by the staging file. -/
def replace (reaction : Reaction) (fs : Fs) (staging destination : PathBuf) : Except String Fs :=
  let failure := "DeviceRemote.exe 교체 실패. 실행 중인 디바이스 원격을 닫고 다시 시도해주세요: "
  match reaction.renameError with
  | some e => .error (failure ++ e)
  | none =>
    match fs.rename staging destination with
    | .error e => .error (failure ++ e.message)
    | .ok fs => .ok fs

/-- `launch`, of the file that has just been replaced. -/
def launch (serial : Nat) (reaction : Reaction) (job : TransferJob) (fs : Fs) (path : PathBuf) :
    Finish where
  result :=
    match reaction.spawnError with
    | some e => .error ("DeviceRemote.exe 실행 실패: " ++ e)
    | none => .ok ()
  job := job
  fs := fs
  launches := [{ serial, contents := fs.lookup path, spawned := reaction.spawnError.isNone }]

/-- The part of `finish` behind the finalisation: the staging file takes the place of the
installed tool and is started. -/
def install (serial : Nat) (reaction : Reaction) (job : TransferJob) (fs : Fs) : Finish :=
  match job.dataSource with
  | .memoryCursor _ => ⟨.error "Invalid DeviceRemote staging path", job, fs, []⟩
  | .filePath staging =>
    match checkTarget fs staging with
    | .error e => ⟨.error e, job, fs, []⟩
    | .ok () =>
      if staging.isEmpty then ⟨.error "Missing Downloads folder", job, fs, []⟩
      else
        let destination := staging.dropLast ++ ["DeviceRemote.exe"]
        match checkTarget fs destination with
        | .error e => ⟨.error e, job, fs, []⟩
        | .ok () =>
          match replace reaction fs staging destination with
          | .error e => ⟨.error e, job, fs, []⟩
          | .ok fs => launch serial reaction job fs destination

/-- `finish`, of a job that is to be launched. -/
def finish (serial : Nat) (reaction : Reaction) (job : TransferJob) (fs : Fs) : Finish :=
  if job.auditError.isSome then ⟨.error "DeviceRemote transfer failed", job, fs, []⟩
  else
    let o := job.finalizeDirectWrite H.platform fs
    match o.result with
    | .error e => ⟨.error e, o.job, o.fs, []⟩
    | .ok () => install serial reaction o.job o.fs

/-- `cleanup`, of a job that is to be launched. -/
def cleanup (job : TransferJob) (fs : Fs) : Fs :=
  let fs := job.removeDownloadFile H.platform fs
  match job.dataSource with
  | .filePath staging =>
    if (staging.getLast?.any fun name => ".mdesk-device-remote-".toList.isPrefixOf name.toList) then
      (fs.removeFile staging).toOption.getD fs
    else fs
  | .memoryCursor _ => fs

end DeviceRemote

end MDesk
