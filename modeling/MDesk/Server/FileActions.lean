import MDesk.Server.AuditOnce
import MDesk.Server.FileTransfer

/-!
# The gate in front of the file actions

Which file actions of a controller a connection handles depends on its session, on the action and
on what is enabled. A file manager session may do everything; the other sessions may send what is
printed and receive what is dropped, but nothing else, so they cannot end what they started.
-/

namespace MDesk

open MDesk.Core

/-- `FileAction`, as a controlled host reads it. -/
inductive FileAction where
  | readEmptyDirs (path : String) (includeHidden : Bool)
  | readDir (path : String) (includeHidden : Bool)
  | allFiles (id : Int) (path : String) (includeHidden : Bool)
  | send (id : Int) (path : String) (fileNum : Int) (includeHidden : Bool) (fileType : JobType)
  | receive (id : Int) (path : String) (fileNum : Int) (files : List FileEntry) (totalSize : Nat)
  | removeDir (id : Int) (path : String) (recursive : Bool)
  | removeFile (id : Int) (path : String) (fileNum : Int)
  | create (id : Int) (path : String)
  | cancel (id : Int)
  | sendConfirm (r : TransferJob.FileTransferSendConfirmRequest)
  | rename (id : Int) (path newName : String)
  | other

/-- What a connection answers its controller. -/
inductive ToPeer where
  | error (id : Int) (err : String) (fileNum : Int)
  | dir (id : Int) (path : String) (files : List FileEntry)
  deriving DecidableEq, Repr

/-- An authorised connection with what decides about its file actions. -/
structure FileSession where
  conn : Connection
  file : Bool := true
  enableFileTransfer : Bool := true
  /-- `peer_keyboard_enabled`. -/
  keyboard : Bool := true
  delayedReadDir : Option (String × Bool) := none
  printerData : List (String × Bytes) := []

/-- The host, its options and its directories. -/
structure FileHost extends AuditHost where
  /-- The platforms with `remote_drop_file_transfer_enabled`. -/
  desktop : Bool
  /-- `OPTION_ONE_WAY_FILE_TRANSFER`. -/
  oneWay : Bool
  /-- `get_recursive_files`. -/
  recursiveFiles : String → Bool → Except String (List FileEntry)
  disk : Fs

/-- What becomes of an action in front of its handling. -/
inductive Gate where
  | handle
  | ignore
  | refuse (reply : ToPeer)
  | delay (path : String) (includeHidden : Bool)
  deriving DecidableEq, Repr

/-- What a connection does with an action. -/
structure FileOutcomeOf where
  session : FileSession
  toPeer : List ToPeer := []
  toCm : List ToCm := []

namespace FileSession

variable (H : FileHost)

def remoteDropFileTransferEnabled (s : FileSession) : Bool :=
  H.desktop && s.file && s.enableFileTransfer

/-- The checks on the device-remote tool. -/
def deviceRemoteRefusal (s : FileSession) : FileAction → Option ToPeer
  | .create id path =>
    if deviceRemotePrefix.toList <+: path.toList then
      some (.error id "DeviceRemote does not support directory creation" (-1))
    else none
  | .receive id path fileNum files totalSize =>
    if deviceRemotePrefix.toList <+: path.toList ∧
        (!H.platform.windows ∨ !s.conn.isRemote ∨ !s.remoteDropFileTransferEnabled H ∨
          !s.keyboard ∨ path ≠ deviceRemoteTarget ∨ fileNum ≠ 0 ∨ files.length ≠ 1 ∨
          files.head?.any (!·.name.isEmpty) ∨ totalSize = 0 ∨ 64 * 1024 * 1024 < totalSize) then
      some (.error id ("DeviceRemote requires an authorized remote-control session and a valid " ++
        "single executable") fileNum)
    else none
  | _ => none

/-- The job of a drop into Downloads. -/
def remoteDropJob : FileAction → Option (Int × Int)
  | .receive id path fileNum _ _ =>
    if isRemoteDropDownloadsPath path then some (id, fileNum) else none
  | .create id path => if isRemoteDropDownloadsPath path then some (id, -1) else none
  | _ => none

/-- `handle_fa`: a file manager session, a print job, or a drop that is permitted. -/
def scope (s : FileSession) (a : FileAction) : Gate :=
  if s.conn.fileTransfer then .handle
  else
    match a with
    | .send _ _ _ _ .printer => .handle
    | a =>
      match remoteDropJob a with
      | none => .ignore
      | some (id, fileNum) =>
        if s.remoteDropFileTransferEnabled H then .handle
        else .refuse (.error id "No permission of file transfer" fileNum)

/-- The job that one-way file transfer refuses. -/
def oneWayJob : FileAction → Option Int
  | .send id _ _ _ _ | .removeFile id _ _ | .rename id _ _ | .create id _ | .removeDir id _ _ =>
    some id
  | _ => none

/-- What stands in front of the handling of an action. -/
def gate (s : FileSession) (a : FileAction) : Gate :=
  match s.deviceRemoteRefusal H a with
  | some reply => .refuse reply
  | none =>
    match s.scope H a with
    | .handle =>
      if s.delayedReadDir.isSome then
        match a with
        | .readDir path includeHidden => .delay path includeHidden
        | _ => .ignore
      else if H.oneWay then
        match oneWayJob a with
        | some id => .refuse (.error id "one-way-file-transfer-tip" 0)
        | none => .handle
      else .handle
    | verdict => verdict

/-- A `Send`. What is printed is taken off the data that waits for it. -/
def handleSend (s : FileSession) (id : Int) (path : String) (fileNum : Int)
    (includeHidden : Bool) : JobType → FileOutcomeOf
  | .generic =>
    match H.recursiveFiles path includeHidden with
    | .error err => { session := s, toPeer := [.error id err 0] }
    | .ok files =>
      { session := { s with
          conn := s.conn.send H.toAuditHost id .generic path fileNum includeHidden
            (.filePath (H.pathOf path)) files H.disk }
        toPeer := [.dir id path files] }
  | .printer =>
    match s.printerData.find? (·.1 = path) with
    | none => { session := s }
    | some (_, data) =>
      { session := { s with
          conn := s.conn.send H.toAuditHost id .printer path fileNum includeHidden
            (.memoryCursor data) [] H.disk
          printerData := s.printerData.eraseP (·.1 = path) }
        toPeer := [.dir id path []] }

/-- The handling of an action. A listing is asked of the connection manager without an id. -/
def handle (s : FileSession) : FileAction → FileOutcomeOf
  | .readEmptyDirs _ _ | .readDir _ _ | .other => { session := s }
  | .allFiles id path includeHidden =>
    match H.recursiveFiles path includeHidden with
    | .error err => { session := s, toPeer := [.error id err (-1)] }
    | .ok files => { session := s, toPeer := [.dir id path files] }
  | .send id path fileNum includeHidden fileType =>
    s.handleSend H id path fileNum includeHidden fileType
  | .receive id path fileNum files totalSize =>
    let (conn, toCm) := s.conn.receive H.toAuditHost id path fileNum files totalSize H.disk
    { session := { s with conn }, toCm }
  | .removeDir id _ _ | .create id _ | .rename id _ _ => { session := s, toCm := [.action id 0] }
  | .removeFile id _ fileNum => { session := s, toCm := [.action id fileNum] }
  | .cancel id =>
    let (conn, toCm) := s.conn.cancel H.toAuditHost id
    { session := { s with conn }, toCm }
  | .sendConfirm r =>
    let (conn, toCm) := s.conn.sendConfirm H.toAuditHost r H.disk
    { session := { s with conn }, toCm }

/-- A file action of the controller. -/
def onFileAction (s : FileSession) (a : FileAction) : FileOutcomeOf :=
  match s.gate H a with
  | .handle => s.handle H a
  | .ignore => { session := s }
  | .refuse reply => { session := s, toPeer := [reply] }
  | .delay path includeHidden =>
    { session := { s with delayedReadDir := some (path, includeHidden) } }

end FileSession

/-! ## Cancelling -/

/-- A `Cancel` ends the jobs of its id and no other one. -/
structure Cancelled (H : AuditHost) (id : Int) (c : Connection) (out : Connection × List ToCm) :
    Prop where
  jobs : out.1.readJobs = c.readJobs.filter (·.job.id ≠ id)
  cancelWrite : out.2 = [.fs (.cancelWrite id)]
  pending : ∀ other, out.1.pendingFileAudits.get other =
    if other = id then none else c.pendingFileAudits.get other
  audit : ∀ pending context, c.pendingFileAudits.get id = some pending →
    c.auditContext = some context → context.complete → ¬ c.auditBase.isEmpty →
      out.1.posted = c.posted ++ c.outcomeEvents H context pending .cancelled
  quiet : c.pendingFileAudits.get id = none → out.1.posted = c.posted

section Cancelling

variable {H : FileHost} {s : FileSession} {id : Int}

/-- One removal takes all that a condition holds of just when there is at most one. -/
theorem eraseP_eq_filter_iff {α : Type*} {p : α → Bool} {l : List α} :
    l.eraseP p = l.filter (!p ·) ↔ (l.filter p).length ≤ 1 := by
  induction l with
  | nil => simp
  | cons a l ih =>
    cases ha : p a with
    | false => simp [List.eraseP_cons_of_neg, ha, ih]
    | true =>
      rw [List.eraseP_cons_of_pos ha, List.filter_cons_of_neg (by simp [ha]),
        List.filter_cons_of_pos ha, List.length_cons]
      constructor
      · intro heq
        have hnone : l.filter p = [] := by
          rw [heq, List.filter_filter]
          simp
        simp [hnone]
      · intro hle
        have hnone : l.filter p = [] := List.eq_nil_of_length_eq_zero (by omega)
        symm
        rw [List.filter_eq_self]
        intro b hb
        have hnot := List.filter_eq_nil_iff.mp hnone b hb
        simpa using hnot

/-- A `Cancel` is handled in a file manager session that has been listed. -/
theorem onFileAction_cancel (H : FileHost) (s : FileSession) (id : Int) :
    s.onFileAction H (.cancel id) =
      if s.conn.fileTransfer = true ∧ s.delayedReadDir = none then s.handle H (.cancel id)
      else { session := s } := by
  unfold FileSession.onFileAction FileSession.gate FileSession.scope
  cases hfile : s.conn.fileTransfer <;> cases hdelayed : s.delayedReadDir <;>
    cases honeWay : H.oneWay <;> rfl

/-- The jobs that a `Cancel` leaves. -/
theorem cancel_readJobs (H : AuditHost) (c : Connection) (id : Int) :
    (c.cancel H id).1.readJobs = c.readJobs.eraseP fun j => j.job.id = id := by
  unfold Connection.cancel Connection.postEnterpriseFileOutcome Connection.removeJob
  dsimp only
  split
  · rfl
  · split
    · rfl
    · split_ifs <;> rfl

/-- The records that a `Cancel` leaves. -/
theorem cancel_pending (H : AuditHost) (c : Connection) (id other : Int) :
    (c.cancel H id).1.pendingFileAudits.get other =
      if other = id then none else c.pendingFileAudits.get other := by
  unfold Connection.cancel Connection.postEnterpriseFileOutcome
  dsimp only
  cases hp : c.pendingFileAudits.get id with
  | none =>
    dsimp only
    split_ifs with hid
    · rw [hid, hp]
    · rfl
  | some pending =>
    have hremove : (c.pendingFileAudits.remove id).get other =
        if other = id then none else c.pendingFileAudits.get other := Table.get_remove
    dsimp only
    split
    · exact hremove
    split
    · exact hremove
    split
    · exact hremove
    · exact hremove

/-- What a `Cancel` posts. -/
theorem cancel_posted (H : AuditHost) (c : Connection) (id : Int) :
    (∀ pending context, c.pendingFileAudits.get id = some pending →
      c.auditContext = some context → context.complete → ¬ c.auditBase.isEmpty →
        (c.cancel H id).1.posted = c.posted ++ c.outcomeEvents H context pending .cancelled) ∧
    (c.pendingFileAudits.get id = none → (c.cancel H id).1.posted = c.posted) := by
  unfold Connection.cancel Connection.postEnterpriseFileOutcome
  dsimp only
  constructor
  · intro pending context hp hcontext hcomplete hbase
    rw [hp]
    dsimp only
    rw [hcontext]
    dsimp only
    rw [if_neg (by simpa using hcomplete), if_neg]
    · rfl
    · exact hbase
  · intro hp
    rw [hp]

/-- A handled `Cancel` ends the jobs of its id and no other one just when the reading jobs have
the id at most once. -/
theorem cancelled_handle_iff (H : AuditHost) (c : Connection) (id : Int) :
    Cancelled H id c (c.cancel H id) ↔ (c.readJobs.filter (·.job.id = id)).length ≤ 1 := by
  have hnot : (c.readJobs.filter (·.job.id ≠ id)) =
      c.readJobs.filter fun j => !decide (j.job.id = id) := by simp
  rw [← eraseP_eq_filter_iff, ← cancel_readJobs H, ← hnot]
  constructor
  · intro h
    exact h.jobs
  · intro hjobs
    exact ⟨hjobs, rfl, cancel_pending H c id, (cancel_posted H c id).1, (cancel_posted H c id).2⟩

/-- A `Cancel` ends the jobs of its id and no other one just when the session is a file manager
session that does not wait for its first listing, and its reading jobs have the id once at most. -/
theorem onFileAction_cancelled_iff (H : FileHost) (s : FileSession) (id : Int) :
    Cancelled H.toAuditHost id s.conn ((s.onFileAction H (.cancel id)).session.conn,
      (s.onFileAction H (.cancel id)).toCm) ↔
    s.conn.fileTransfer = true ∧ s.delayedReadDir = none ∧
      (s.conn.readJobs.filter (·.job.id = id)).length ≤ 1 := by
  rw [onFileAction_cancel]
  split_ifs with hopen
  · rw [← and_assoc, and_iff_right hopen]
    exact cancelled_handle_iff H.toAuditHost s.conn id
  · constructor
    · intro h
      cases h.cancelWrite
    · rintro ⟨hfile, hdelayed, -⟩
      exact absurd ⟨hfile, hdelayed⟩ hopen

/-- A remote control session that waits with a page to print. -/
def printSession : FileSession where
  conn := { Connection.auditedConnection with fileTransfer := false }
  printerData := [("RustDesk://FsJob//Printer/1", [1, 2, 3])]

def printHost : FileHost where
  toAuditHost := Connection.auditHost
  desktop := true
  oneWay := false
  recursiveFiles _ _ := .error "not found"
  disk := ⟨[]⟩

/-- What is printed cannot be cancelled: the job goes on, and nobody is told. -/
theorem onFileAction_print_goes_on :
    let s := (printSession.onFileAction printHost
      (.send 5 "RustDesk://FsJob//Printer/1" 1 false .printer)).session
    s.conn.readJobs.map (·.job.id) = [5] ∧
      ¬ Cancelled printHost.toAuditHost 5 s.conn
        ((s.onFileAction printHost (.cancel 5)).session.conn,
          (s.onFileAction printHost (.cancel 5)).toCm) := by
  intro s
  refine ⟨by decide +kernel, ?_⟩
  intro h
  have htoCm : (s.onFileAction printHost (.cancel 5)).toCm = [] := by decide +kernel
  rw [htoCm] at h
  cases h.cancelWrite

end Cancelling

end MDesk
