import MDesk.Cm.DeviceRemote
import MDesk.Core.Run

/-!
# The file messages of the connection manager

`handle_fs` over the messages that concern write jobs. The messages come from the
controller, which chooses their order and their ids; the connection manager finds the job
of a message by its id.
-/

namespace MDesk

open MDesk.Core

/-! ## Paths of remote drops -/

/-- `hex_value`. -/
def hexValue (byte : UInt8) : Option UInt8 :=
  if 0x30 ≤ byte ∧ byte ≤ 0x39 then some (byte - 0x30)
  else if 0x61 ≤ byte ∧ byte ≤ 0x66 then some (byte - 0x61 + 10)
  else if 0x41 ≤ byte ∧ byte ≤ 0x46 then some (byte - 0x41 + 10)
  else none

/-- The loop of `decode_remote_drop_component`. -/
def decodeDropBytes : Bytes → Option Bytes
  | [] => some []
  | byte :: rest =>
    if byte = 0x25 then
      match rest with
      | hi :: lo :: rest =>
        match hexValue hi, hexValue lo with
        | some hi, some lo => (decodeDropBytes rest).map ((hi <<< 4 ||| lo) :: ·)
        | _, _ => none
      | _ => none
    else (decodeDropBytes rest).map (byte :: ·)

/-- `decode_remote_drop_component`. -/
def decodeRemoteDropComponent (component : String) : Except String String :=
  if component.isEmpty then .error "Invalid remote drop target"
  else
    match (decodeDropBytes component.toUTF8.toList).bind fun decoded =>
        String.fromUTF8? ⟨decoded.toArray⟩ with
    | some decoded => .ok decoded
    | none => .error "Invalid remote drop target encoding"

/-- `validate_remote_drop_component`. -/
def validateRemoteDropComponent (P : Platform) (component : String) : Except String Unit :=
  if component = "" ∨ component = "." ∨ component = ".." then .error "Invalid remote drop target"
  else if component.toList.any fun c => isDirectSeparator c || c == '\x00' then
    .error "Invalid remote drop target"
  else if P.windows ∧ component.toList.any fun c =>
      isControl c || ['<', '>', ':', '"', '|', '?', '*'].contains c then
    .error "Invalid remote drop target"
  else .ok ()

/-- The components of a drop below the folder reached so far. -/
def pushRemoteDrop (P : Platform) (target : PathBuf) : List String → Except String PathBuf
  | [] => .ok target
  | encoded :: rest =>
    match decodeRemoteDropComponent encoded with
    | .error e => .error e
    | .ok decoded =>
      match validateRemoteDropComponent P decoded with
      | .error e => .error e
      | .ok () => pushRemoteDrop P (target ++ [decoded]) rest

/-- The text behind a prefix. -/
def stripPrefix (start s : String) : Option String :=
  if start.toList.isPrefixOf s.toList then some (String.ofList (s.toList.drop start.toList.length))
  else none

/-- `resolve_remote_drop_downloads_path`, of a path that is not for the remote tool. -/
def resolveRemoteDropDownloadsPath (H : Host) (path : String) : Except String (Option PathBuf) :=
  match stripPrefix remoteDropDownloadsPrefix path with
  | none => .ok none
  | some relative =>
    if relative.isEmpty then .error "Invalid remote drop target"
    else (pushRemoteDrop H.platform H.getDownloadDir (splitStr (· == '/') relative)).map some

/-! ## Messages and answers -/

/-- The messages of `ipc::FS` that concern write jobs. A confirmation arrives as bytes,
which need not parse. -/
inductive FsMessage where
  | newWrite (path : String) (id fileNum : Int) (files : List (String × Nat))
      (overwriteDetection : Bool) (totalSize : Nat)
  | cancelWrite (id : Int)
  | writeDone (id fileNum : Int)
  | writeError (id fileNum : Int) (err : String)
  | writeBlock (id fileNum : Int) (data : Bytes) (compressed : Bool)
  | checkDigest (id fileNum : Int) (fileSize lastModified : Nat) (isUpload isResume : Bool)
  | sendConfirm (parsed : Option TransferJob.FileTransferSendConfirmRequest)
  deriving DecidableEq, Repr

/-- What the connection manager answers. -/
inductive CmAnswer where
  | error (id : Int) (err : String) (fileNum : Int)
  | done (id fileNum : Int)
  | outcome (id : Int) (succeeded : Bool)
  | sendConfirm (r : TransferJob.FileTransferSendConfirmRequest)
  | digest (digest : FileTransferDigest)
  deriving DecidableEq, Repr

/-- A write job, numbered by the message that started it. -/
structure CmJob where
  serial : Nat
  deviceRemoteLaunch : Bool
  job : TransferJob
  deriving DecidableEq, Repr

/-- The file side of a connection manager. `opened` counts the messages that ask for a
write job; `uploads` notes the declared sizes of the accepted uploads of the tool,
`accepted` the data of the blocks that went into jobs, `finished` the jobs whose
finalisation succeeded and `launches` the attempts to start the tool. -/
structure Cm where
  fs : Fs
  jobs : List CmJob := []
  opened : Nat := 0
  uploads : List (Nat × Nat) := []
  accepted : List (Nat × Bytes) := []
  finished : List Nat := []
  launches : List DeviceRemote.Launch := []

/-- What the operating system contributes while a message is handled. -/
structure Surroundings where
  modified : ModifiedAt := fun _ => none
  reaction : DeviceRemote.Reaction := {}

namespace Cm

variable (H : Host)

/-- `get_job`. -/
def getJob (id : Int) (jobs : List CmJob) : Option CmJob := jobs.find? fun j => j.job.id = id

/-- `remove_job`. -/
def removeJob (id : Int) (jobs : List CmJob) : List CmJob := jobs.eraseP fun j => j.job.id = id

/-- Change the job that `get_job` gives. -/
def setJob (id : Int) (job : TransferJob) : List CmJob → List CmJob
  | [] => []
  | j :: jobs => if j.job.id = id then { j with job } :: jobs else j :: setJob id job jobs

/-- `cleanup` of a job that has been taken off the list. -/
def cleanup (j : CmJob) (fs : Fs) : Fs :=
  if j.deviceRemoteLaunch then DeviceRemote.cleanup H j.job fs else fs

/-- The upload of the remote tool is asked for. -/
def newDeviceRemote (cm : Cm) (serial : Nat) (path : String) (id fileNum : Int)
    (files : List (String × Nat)) (totalSize : Nat) : Cm × List CmAnswer :=
  if cm.jobs.any fun j => j.job.id = id ∨ j.deviceRemoteLaunch then
    let answers := [CmAnswer.error id "DeviceRemote upload is already in progress" fileNum]
    match getJob id cm.jobs with
    | none => (cm, answers)
    | some j =>
      ({ cm with
        jobs := removeJob id cm.jobs
        fs := j.job.removeDownloadFile H.platform (cleanup H j cm.fs) }, answers)
  else
    match DeviceRemote.prepare H cm.fs serial path id fileNum files totalSize with
    | (.error e, fs) => ({ cm with fs }, [.error id e fileNum])
    | (.ok job, fs) =>
      ({ cm with
        fs
        jobs := cm.jobs ++ [{ serial, deviceRemoteLaunch := true, job }]
        uploads := cm.uploads ++ [(serial, totalSize)] }, [])

/-- The path of an ordinary write job. -/
def destination (path : String) : Except String PathBuf :=
  match resolveRemoteDropDownloadsPath H path with
  | .error e => .error e
  | .ok (some p) => .ok p
  | .ok none => .ok (H.pathOf path)

/-- The entries of an ordinary write job. -/
def fileEntries (files : List (String × Nat)) : List FileEntry :=
  files.map fun f => { name := f.1, modifiedTime := f.2 }

/-- An ordinary write job is asked for. -/
def newOrdinary (cm : Cm) (serial : Nat) (path : String) (id fileNum : Int)
    (files : List (String × Nat)) (overwriteDetection : Bool) (totalSize : Nat) :
    Cm × List CmAnswer :=
  match destination H path with
  | .error e => (cm, [.error id e fileNum])
  | .ok p =>
    match (TransferJob.newWrite id .generic "" (.filePath p) fileNum false false
        overwriteDetection).setFiles H.platform cm.fs (fileEntries files) with
    | .error e => (cm, [.error id e fileNum])
    | .ok job =>
      ({ cm with
        jobs := cm.jobs ++
          [{ serial, deviceRemoteLaunch := false, job := { job with totalSize } }] },
        [])

/-- The end of a write job that has been taken off the list. -/
def finishJob (env : Surroundings) (j : CmJob) (fs : Fs) : DeviceRemote.Finish :=
  if j.deviceRemoteLaunch then DeviceRemote.finish H j.serial env.reaction j.job fs
  else
    let o := j.job.finalizeWrite H.platform fs
    ⟨o.result, o.job, o.fs, []⟩

/-- `WriteDone`. -/
def writeDone (env : Surroundings) (cm : Cm) (id fileNum : Int) : Cm × List CmAnswer :=
  match getJob id cm.jobs with
  | none => (cm, [])
  | some j =>
    let f := finishJob H env j cm.fs
    let cm := { cm with
      jobs := removeJob id cm.jobs
      fs := cleanup H { j with job := f.job } f.fs
      launches := cm.launches ++ f.launches }
    match f.result with
    | .ok () =>
      ({ cm with finished := cm.finished ++ [j.serial] },
        [.outcome id f.job.auditError.isNone, .done id fileNum])
    | .error e => (cm, [.outcome id false, .error id e fileNum])

/-- The data a job takes, nothing where it refuses the block. -/
def acceptedData (P : Platform) (job : TransferJob) (fs : Fs) (block : FileTransferBlock) :
    List Bytes :=
  match (job.write P fs block).result, job.decodeBlock P block with
  | .ok (), .ok data => [data]
  | _, _ => []

/-- `WriteBlock`. A refused block ends the upload of the tool. -/
def writeBlock (cm : Cm) (id fileNum : Int) (data : Bytes) (compressed : Bool) :
    Cm × List CmAnswer :=
  match getJob id cm.jobs with
  | none => (cm, [])
  | some j =>
    let block : FileTransferBlock := { id, fileNum, data, compressed }
    let o := j.job.write H.platform cm.fs block
    let cm' := { cm with
      fs := o.fs
      jobs := setJob id o.job cm.jobs
      accepted := cm.accepted ++
        (acceptedData H.platform j.job cm.fs block).map fun data => (j.serial, data) }
    match o.result with
    | .ok () => (cm', [])
    | .error e =>
      if j.deviceRemoteLaunch then
        ({ cm' with
          jobs := removeJob id cm'.jobs
          fs := DeviceRemote.cleanup H o.job cm'.fs }, [.error id e fileNum])
      else (cm', [.error id e fileNum])

/-- The answer to a digest that has been compared, and what it leaves of the job. -/
def answerDigest (job : TransferJob) (id fileNum : Int) (isUpload : Bool) :
    DigestCheckResult → TransferJob × CmAnswer
  | .isSame =>
    ({ job with auditHadSkippedFile := true },
      .sendConfirm { id, fileNum, union := some (.skip true) })
  | .needConfirm digest => (job, .digest { digest with isUpload })
  | .noSuchFile => (job, .sendConfirm { id, fileNum, union := some (.offsetBlk 0) })

/-- `CheckDigest`. The upload of the tool always starts at its first byte. -/
def checkDigest (env : Surroundings) (cm : Cm) (id fileNum : Int) (fileSize lastModified : Nat)
    (isUpload isResume : Bool) : Cm × List CmAnswer :=
  match getJob id cm.jobs with
  | none => (cm, [])
  | some j =>
    if j.deviceRemoteLaunch then
      if fileNum ≠ 0 ∨ fileSize ≠ j.job.totalSize ∨ isResume then
        ({ cm with
          jobs := removeJob id cm.jobs
          fs := DeviceRemote.cleanup H j.job cm.fs },
          [.error id "Invalid DeviceRemote digest" fileNum])
      else (cm, [.sendConfirm { id, fileNum, union := some (.offsetBlk 0) }])
    else
      match j.job.files[asUsize fileNum]?, j.job.dataSource with
      | some file, .filePath p =>
        match isWriteNeedConfirmation H.parseDigest cm.fs env.modified isResume
            (H.platform.join p file.name) { id, fileNum, lastModified, fileSize } with
        | .error e => (cm, [.error id e fileNum])
        | .ok result =>
          let (job, answer) :=
            answerDigest (j.job.setDigest fileSize lastModified) id fileNum isUpload result
          ({ cm with jobs := setJob id job cm.jobs }, [answer])
      | _, _ => (cm, [])

/-- `SendConfirm`. -/
def sendConfirm (cm : Cm) (r : TransferJob.FileTransferSendConfirmRequest) : Cm :=
  match getJob r.id cm.jobs with
  | none => cm
  | some j =>
    let job := if r.union = some (.skip true) then { j.job with auditHadSkippedFile := true }
      else j.job
    { cm with jobs := setJob r.id (job.confirm H.platform cm.fs r) cm.jobs }

/-- `handle_fs`. -/
def handleFs (env : Surroundings) (cm : Cm) : FsMessage → Cm × List CmAnswer
  | .newWrite path id fileNum files overwriteDetection totalSize =>
    let serial := cm.opened
    let cm := { cm with opened := serial + 1 }
    if deviceRemotePrefix.toList.isPrefixOf path.toList then
      newDeviceRemote H cm serial path id fileNum files totalSize
    else newOrdinary H cm serial path id fileNum files overwriteDetection totalSize
  | .cancelWrite id =>
    match getJob id cm.jobs with
    | none => (cm, [])
    | some j =>
      ({ cm with
        jobs := removeJob id cm.jobs
        fs := j.job.removeDownloadFile H.platform (cleanup H j cm.fs) }, [])
  | .writeDone id fileNum => writeDone H env cm id fileNum
  | .writeError id fileNum err =>
    match getJob id cm.jobs with
    | none => (cm, [])
    | some j =>
      ({ cm with jobs := removeJob id cm.jobs, fs := cleanup H j cm.fs },
        [.error j.job.id err fileNum])
  | .writeBlock id fileNum data compressed => writeBlock H cm id fileNum data compressed
  | .checkDigest id fileNum fileSize lastModified isUpload isResume =>
    checkDigest H env cm id fileNum fileSize lastModified isUpload isResume
  | .sendConfirm none => (cm, [])
  | .sendConfirm (some r) => (sendConfirm H cm r, [])

/-- A message handled within its surroundings. -/
def step (cm : Cm) (e : Surroundings × FsMessage) : Cm := (handleFs H e.1 cm e.2).1

end Cm

end MDesk
