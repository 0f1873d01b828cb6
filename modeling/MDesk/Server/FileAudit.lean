import MDesk.Cm.HandleFs
import MDesk.Core.Text

/-!
# Audit records of file transfers

The terminal outcomes a controlled host reports for the transfers of a connection. A
transfer is remembered under the job id of its controller until its outcome is posted, in
batches of at most a hundred files.
-/

namespace MDesk

open MDesk.Core

/-! ## Texts -/

/-- `trim().is_empty()`. -/
def isBlank (s : String) : Bool := s.toList.all isWhiteSpace

/-- `trim_end_matches` on the reversed text, which loses at least one character a round. -/
def stripReversed (suffix : List Char) : Nat → List Char → List Char
  | 0, s => s
  | n + 1, s =>
    if suffix.isPrefixOf s then stripReversed suffix n (s.drop suffix.length) else s

/-- `str::trim_end_matches` with a nonempty pattern. -/
def trimEndMatches (s suffix : String) : String :=
  String.ofList (stripReversed suffix.toList.reverse s.length s.toList.reverse).reverse

/-- `truncate_audit_text`: the characters that fit into `maxChars` UTF-16 units. -/
def truncateAuditText (value : String) (maxChars : Nat) : String :=
  String.ofList (go 0 value.toList)
where
  go (units : Nat) : List Char → List Char
  | [] => []
  | c :: cs =>
    let next := units + if c.toNat < 0x10000 then 1 else 2
    if maxChars < next then [] else c :: go next cs

/-- `slice::chunks`, of a positive size. -/
def chunks {α : Type*} (size : Nat) (xs : List α) : List (List α) := (xs.toChunksAux (size - 1) 0).2

/-- The chunks of a list are the list again, none is empty, and none is longer than their size. -/
theorem chunks_spec {α : Type*} {size : Nat} (h : 0 < size) (xs : List α) :
    (chunks size xs).flatten = xs ∧ ∀ c ∈ chunks size xs, c ≠ [] ∧ c.length ≤ size := by
  have hgo : ∀ (xs : List α) (i : Nat),
      (xs.toChunksAux (size - 1) i).1 ++ (xs.toChunksAux (size - 1) i).2.flatten = xs ∧
        (xs.toChunksAux (size - 1) i).1.length ≤ i ∧
        ∀ c ∈ (xs.toChunksAux (size - 1) i).2, c ≠ [] ∧ c.length ≤ size := by
    intro xs
    induction xs with
    | nil => simp [List.toChunksAux]
    | cons x xs ih =>
      intro i
      cases i with
      | zero =>
        obtain ⟨hflat, hlen, hall⟩ := ih (size - 1)
        simp only [List.toChunksAux, List.nil_append, List.flatten_cons, List.cons_append, hflat,
          List.length_nil, List.mem_cons, forall_eq_or_imp, List.length_cons]
        exact ⟨trivial, Nat.le_refl 0, ⟨List.cons_ne_nil _ _, by omega⟩, hall⟩
      | succ i =>
        obtain ⟨hflat, hlen, hall⟩ := ih i
        simp only [List.toChunksAux, List.cons_append, hflat, List.length_cons]
        exact ⟨trivial, by omega, hall⟩
  obtain ⟨hflat, hlen, hall⟩ := hgo xs 0
  rw [List.eq_nil_of_length_eq_zero (Nat.le_zero.mp hlen), List.nil_append] at hflat
  exact ⟨hflat, hall⟩

/-! ## Records -/

inductive EnterpriseFileDirection where
  | upload
  | download
  deriving DecidableEq, Repr

/-- `as_api_str`. -/
def EnterpriseFileDirection.asApiStr : EnterpriseFileDirection → String
  | .upload => "UPLOAD"
  | .download => "DOWNLOAD"

inductive EnterpriseFileTransferMode where
  | fileManager
  | remoteDrop
  | remoteDirectDownload
  deriving DecidableEq, Repr

/-- `as_api_str`. -/
def EnterpriseFileTransferMode.asApiStr : EnterpriseFileTransferMode → String
  | .fileManager => "FILE_MANAGER"
  | .remoteDrop => "REMOTE_DROP"
  | .remoteDirectDownload => "REMOTE_DIRECT_DOWNLOAD"

/-- The terminal events. -/
inductive FileOutcome where
  | completed
  | failed
  | cancelled
  deriving DecidableEq, Repr

def FileOutcome.text : FileOutcome → String
  | .completed => "COMPLETED"
  | .failed => "FAILED"
  | .cancelled => "CANCELLED"

/-- `AuditContext`. -/
structure AuditContext where
  connectionTicket : String
  sourceConnectionId : String
  deriving DecidableEq, Repr

/-- The context names its connection. -/
def AuditContext.complete (context : AuditContext) : Bool :=
  !isBlank context.connectionTicket && !isBlank context.sourceConnectionId

/-- A `PendingFileAudit`, with the number of its transfer among those of its direction. -/
structure PendingFileAudit where
  serial : Nat
  transferId : String
  direction : EnterpriseFileDirection
  transferMode : EnterpriseFileTransferMode
  path : String
  files : List (String × Int)
  sourceFinished : Bool := false
  deriving DecidableEq, Repr

/-- The payload of one posted event, with the number of the transfer it is about. -/
structure FileAuditEvent where
  serial : Nat
  url : String
  ticket : String
  sourceConnectionId : String
  eventId : String
  transferId : String
  event : FileOutcome
  reporterRid : String
  reporterUuid : String
  controllerRid : String
  direction : EnterpriseFileDirection
  transferMode : EnterpriseFileTransferMode
  path : String
  files : List (String × Int)
  occurredAt : String
  deriving DecidableEq, Repr

/-! ## Names in records -/

/-- `get_files_for_audit`. -/
def getFilesForAudit (jobType : JobType) (files : List FileEntry) : List (String × Int) :=
  files.map fun f =>
    (if jobType = .printer then "Remote print" else f.name, min (f.size : Int) (2 ^ 63 - 1))

/-- What the audit takes from the host: the names of the standard library and of the
configuration. -/
structure AuditHost extends Host where
  /-- `file_name` of a path string. -/
  fileName : String → Option String
  /-- `Config::get_id`. -/
  id : String
  /-- `encode64(get_uuid())`. -/
  encodedUuid : String
  /-- The time at which an identifier is drawn. -/
  clock : Nat → String

/-- An empty list of files is reported as its root. -/
def withFallback (name : String) (files : List (String × Int)) : List (String × Int) :=
  if files.isEmpty then [(truncateAuditText name 255, 0)] else files

/-- `normalized_audit_files`. -/
def normalizedAuditFiles (H : AuditHost) (path : String) (files : List (String × Int)) :
    List (String × Int) :=
  let fallbackName := ((H.fileName path).filter fun name => !isBlank name).getD "transferred-file"
  withFallback fallbackName (files.map fun f =>
    (truncateAuditText (if isBlank f.1 then fallbackName else f.1) 255, max f.2 0))

/-- `direct_download_audit_basename`. -/
def directDownloadAuditBasename (value : String) : Option String :=
  match (splitStr isDirectSeparator value).getLast? with
  | none => none
  | some basename =>
    if isBlank basename ∨ basename = "." ∨ basename = ".." ∨ basename.toList.any isControl then none
    else some basename

/-- `normalized_direct_download_audit_files`. -/
def normalizedDirectDownloadAuditFiles (rootName : String) (files : List (String × Int)) :
    List (String × Int) :=
  let fallbackName := (directDownloadAuditBasename rootName).getD "transferred-file"
  withFallback fallbackName (files.map fun f =>
    (truncateAuditText (if f.1.isEmpty then fallbackName
      else (directDownloadAuditBasename f.1).getD "transferred-file") 255, max f.2 0))

/-- `is_remote_drop_downloads_path`. -/
def isRemoteDropDownloadsPath (path : String) : Bool :=
  remoteDropDownloadsPrefix.toList.isPrefixOf path.toList ||
    deviceRemotePrefix.toList.isPrefixOf path.toList

/-- `enterprise_file_transfer_mode_for`. -/
def enterpriseFileTransferModeFor (isFileTransferConnection isRemoteConnection : Bool)
    (direction : EnterpriseFileDirection) (path : String) : Option EnterpriseFileTransferMode :=
  if isFileTransferConnection then some .fileManager
  else if isRemoteConnection ∧ direction = .upload ∧ isRemoteDropDownloadsPath path then
    some .remoteDrop
  else none

/-- `enterprise_file_audit_path`. -/
def enterpriseFileAuditPath (mode : EnterpriseFileTransferMode) (path : String) : String :=
  match mode with
  | .remoteDrop | .remoteDirectDownload => "Downloads"
  | .fileManager => truncateAuditText path 2000

/-- `resolve_remote_drop_downloads_path`, of any path. -/
def resolveDrop (H : Host) (fs : Fs) (path : String) : Except String (Option PathBuf) :=
  if deviceRemotePrefix.toList.isPrefixOf path.toList then
    if path ≠ deviceRemoteTarget then .error "Invalid DeviceRemote target"
    else (H.getDownloadDirStrict fs).1.map fun dir => some (dir ++ ["DeviceRemote.exe"])
  else resolveRemoteDropDownloadsPath H path

/-- `enterprise_file_normalization_path`. -/
def enterpriseFileNormalizationPath (H : Host) (fs : Fs) (mode : EnterpriseFileTransferMode)
    (path : String) : String :=
  match mode with
  | .fileManager => path
  | .remoteDrop =>
    match resolveDrop H fs path with
    | .ok (some resolved) => resolved.getLast?.getD ""
    | _ => ""
  | .remoteDirectDownload => ""

end MDesk
